import DartSdk.HashTable

/-! Writes to the header or to one entry leave all other entries alone (`OffEntry`), which is all
that the invariant of the entries needs of the index arithmetic. -/
namespace DartSdk.HashTable
open LinearProbing List Nat HashTable

variable {Key A : Type}

variable (data : List (RawObject A))

def cell (i : ℕ) : RawObject A := data.getD i .null

lemma cell_set {data : List (RawObject A)} {i : ℕ} (hi : i < data.length) (v : RawObject A) :
    cell (data.set i v) i = v := by
  simp [cell,hi]

lemma cell_set_ne {i j : ℕ} (h : j ≠ i) (v : RawObject A) :
    cell (data.set i v) j = cell data j := by
  simp [cell,getElem?_set_ne h.symm]

lemma lt_length_of_cell {data : List (RawObject A)} {i : ℕ} {v : ℤ} (h : cell data i = .smi v) :
    i < data.length := by
  by_contra hi
  simp [cell,getElem?_eq_none (not_lt.1 hi)] at h

lemma getSmiValueAt_eq {data : List (RawObject A)} {i : ℕ} {v : ℤ} (h : cell data i = .smi v) :
    getSmiValueAt data i = some v := by
  have hi := lt_length_of_cell h
  rw [cell,getD_eq_getElem _ _ hi] at h
  simp [getSmiValueAt,getElem?_eq_getElem hi,h]

lemma adjustSmiValueAt_eq {data : List (RawObject A)} {i : ℕ} {v : ℤ} (h : cell data i = .smi v)
    (delta : ℤ) : adjustSmiValueAt data i delta = some (data.set i (.smi (v+delta))) := by
  simp [adjustSmiValueAt,getSmiValueAt_eq h,setSmiValueAt]

namespace Shape
variable (sh : Shape)

lemma two_le_firstKeyIndex : 2 ≤ sh.firstKeyIndex := le_add_right _ _

lemma occupied_lt : kOccupiedEntriesIndex < sh.firstKeyIndex :=
  lt_of_lt_of_le (by decide) sh.two_le_firstKeyIndex

lemma deleted_lt : kDeletedEntriesIndex < sh.firstKeyIndex :=
  lt_of_lt_of_le (by decide) sh.two_le_firstKeyIndex

lemma kNextEnumIndex_lt (h : sh.enumIndex = true) : kNextEnumIndex < sh.firstKeyIndex := by
  simp [kNextEnumIndex,firstKeyIndex,metaDataSize,h]

lemma userPayloadSize_le : sh.userPayloadSize ≤ sh.payloadSize := by
  unfold payloadSize
  split_ifs <;> omega

lemma userPayloadSize_lt (h : sh.enumIndex = true) : sh.userPayloadSize < sh.payloadSize := by
  simp [payloadSize,h]

lemma offset_inj {i j x y : ℕ} (hx : x < sh.entrySize) (hy : y < sh.entrySize)
    (h : sh.keyIndex i+x = sh.keyIndex j+y) : i = j ∧ x = y := by
  have h' : sh.entrySize*i+x = sh.entrySize*j+y := by
    unfold keyIndex at h
    omega
  have hpos : 0 < sh.entrySize := by omega
  have hdiv := congrArg (·/sh.entrySize) h'
  simp only [mul_add_div hpos,div_eq_of_lt hx,div_eq_of_lt hy,add_zero] at hdiv
  subst hdiv
  exact ⟨rfl,by omega⟩

lemma index_lt {n i x : ℕ} (hi : i < n) (hx : x < sh.entrySize) :
    sh.keyIndex i+x < sh.firstKeyIndex+sh.entrySize*n := by
  have : sh.entrySize*(i+1) ≤ sh.entrySize*n := mul_le_mul_left _ hi
  unfold keyIndex
  rw [mul_add,mul_one] at this
  omega

lemma entrySize_pos : 0 < sh.entrySize := by
  unfold entrySize
  omega

end Shape

section OffEntry
variable {sh : Shape} {data data' data'' : List (RawObject A)} {i j n : ℕ}

/-- The arrays have the same length and agree on every entry but `i`. -/
structure OffEntry (sh : Shape) (i : ℕ) (data data' : List (RawObject A)) : Prop where
  length : data'.length = data.length
  cells : ∀ j ≠ i, ∀ x < sh.entrySize, cell data' (sh.keyIndex j+x) = cell data (sh.keyIndex j+x)

lemma OffEntry.refl (sh : Shape) (i : ℕ) (data : List (RawObject A)) : OffEntry sh i data data :=
  ⟨rfl,fun _ _ _ _ => rfl⟩

lemma OffEntry.trans (h : OffEntry sh i data data') (h' : OffEntry sh i data' data'') :
    OffEntry sh i data data'' :=
  ⟨h'.length.trans h.length,fun j hj x hx => (h'.cells j hj x hx).trans (h.cells j hj x hx)⟩

lemma OffEntry.setHeader {m : ℕ} (hm : m < sh.firstKeyIndex) (v : RawObject A) (i : ℕ)
    (data : List (RawObject A)) : OffEntry sh i data (data.set m v) := by
  refine ⟨length_set,fun j _ x _ => cell_set_ne _ ?_ _⟩
  unfold Shape.keyIndex
  omega

lemma OffEntry.setCell {x : ℕ} (hx : x < sh.entrySize) (v : RawObject A)
    (data : List (RawObject A)) : OffEntry sh i data (data.set (sh.keyIndex i+x) v) := by
  refine ⟨length_set,fun j hj y hy => cell_set_ne _ (fun h => hj ?_) _⟩
  exact (sh.offset_inj hy hx h).1

lemma cell_set_header {m x : ℕ} (hm : m < sh.firstKeyIndex) (v : RawObject A) (i : ℕ)
    (data : List (RawObject A)) :
    cell (data.set m v) (sh.keyIndex i+x) = cell data (sh.keyIndex i+x) := by
  refine cell_set_ne _ ?_ _
  unfold Shape.keyIndex
  omega

lemma header_set_cell {m x : ℕ} (hm : m < sh.firstKeyIndex) (v : RawObject A) (i : ℕ)
    (data : List (RawObject A)) : cell (data.set (sh.keyIndex i+x) v) m = cell data m := by
  refine cell_set_ne _ ?_ _
  unfold Shape.keyIndex
  omega

def payloadAt (sh : Shape) (data : List (RawObject A)) (i c : ℕ) : RawObject A :=
  cell data (sh.keyIndex i+(1+c))

lemma payloadIndex_eq (sh : Shape) (i c : ℕ) : sh.payloadIndex i c = sh.keyIndex i+(1+c) :=
  add_assoc _ _ _

section
variable (h : OffEntry sh i data data') (hj : j ≠ i)
include h hj

lemma OffEntry.key : internalGetKey sh data' j = internalGetKey sh data j :=
  h.cells j hj 0 sh.entrySize_pos

lemma OffEntry.payload {c : ℕ}
    (hc : c < sh.payloadSize) : payloadAt sh data' j c = payloadAt sh data j c :=
  h.cells j hj (1+c) (Nat.add_lt_add_left hc 1)

lemma OffEntry.unused : isUnused sh data' j = isUnused sh data j := by
  rw [isUnused,isUnused,h.key hj]

lemma OffEntry.deleted : isDeleted sh data' j = isDeleted sh data j := by
  rw [isDeleted,isDeleted,h.key hj]

lemma OffEntry.occupied : isOccupied sh data' j = isOccupied sh data j := by
  rw [isOccupied,isOccupied,h.unused hj,h.deleted hj]

end

end OffEntry

section States
variable {sh : Shape} {data : List (RawObject A)} {i n : ℕ}

lemma isOccupied_eq_isKey : isOccupied sh data i = (internalGetKey sh data i).isKey := by
  unfold isOccupied isUnused isDeleted
  cases internalGetKey sh data i <;> rfl

lemma isUnused_iff : isUnused sh data i = true ↔ internalGetKey sh data i = .sentinel := by
  unfold isUnused
  cases internalGetKey sh data i <;> simp

lemma isDeleted_iff :
    isDeleted sh data i = true ↔ internalGetKey sh data i = .transitionSentinel := by
  unfold isDeleted
  cases internalGetKey sh data i <;> simp

lemma isOccupied_of_unused (h : isUnused sh data i = true) : isOccupied sh data i = false := by
  simp [isOccupied,h]

lemma isOccupied_of_deleted (h : isDeleted sh data i = true) : isOccupied sh data i = false := by
  simp [isOccupied,h]

lemma isUnused_of_occupied (h : isOccupied sh data i = true) : isUnused sh data i = false := by
  rw [isOccupied,Bool.and_eq_true,Bool.not_eq_true'] at h
  exact h.1

lemma numEntries_eq (h : data.length = sh.firstKeyIndex+sh.entrySize*n) :
    numEntries sh data = n := by
  rw [numEntries,h,Nat.add_sub_cancel_left,Nat.mul_div_cancel_left n sh.entrySize_pos]

end States

namespace KeyTraits
variable (T : KeyTraits Key A)

def Class : Type := Quotient T.equiv

def classOf (k : Key) : T.Class := Quotient.mk T.equiv k

def home (n : ℕ) : T.Class → ℕ :=
  Quotient.lift (fun k => T.hash k%n) fun k k' h => by rw [T.hash_eq k k' h]

lemma home_classOf (n : ℕ) (k : Key) : T.home n (T.classOf k) = T.hash k%n := rfl

lemma home_lt {n : ℕ} (hn : 0 < n) (q : T.Class) : T.home n q < n := by
  induction q using Quotient.inductionOn with
  | h k => exact mod_lt _ hn

lemma classOf_eq_iff {k k' : Key} : T.classOf k = T.classOf k' ↔ T.equiv k k' := Quotient.eq

lemma isMatch_iff_class {k : Key} {o : RawObject A} (ho : o.isKey = true) :
    T.isMatch k o = true ↔ T.classOf (T.ofObject o) = T.classOf k := by
  rw [T.isMatch_iff k o ho,eq_comm,classOf_eq_iff]

end KeyTraits

section Slots
variable {T : KeyTraits Key A} {sh : Shape} {data data' : List (RawObject A)} {i n : ℕ}
  {F : T.Class → Option (RawObject A × List (RawObject A))}

variable (sh) (data)

def userPayload (i : ℕ) : List (RawObject A) :=
  (List.range sh.userPayloadSize).map (payloadAt sh data i)

/-- The key object and the payload of an entry. -/
def contents (i : ℕ) : RawObject A × List (RawObject A) :=
  (internalGetKey sh data i,userPayload sh data i)

variable (T)

def keyClass (i : ℕ) : T.Class :=
  T.classOf (T.ofObject (internalGetKey sh data i))

def item (i : ℕ) : Option (T.Class × RawObject A × List (RawObject A)) :=
  if isOccupied sh data i then some (keyClass T sh data i,contents sh data i) else none

variable {data} {sh} {T}

lemma item_eq_some {k : T.Class} {x : RawObject A × List (RawObject A)} :
    item T sh data i = some (k,x) ↔
      isOccupied sh data i = true ∧ keyClass T sh data i = k ∧ contents sh data i = x := by
  unfold item
  split_ifs with h <;> simp [h]

lemma item_eq_none : item T sh data i = none ↔ isOccupied sh data i = false := by
  unfold item
  split_ifs with h <;> simp [h]

lemma OffEntry.item (h : OffEntry sh i data data') {j : ℕ} (hj : j ≠ i) :
    item T sh data' j = item T sh data j := by
  have hpay : userPayload sh data' j = userPayload sh data j := by
    refine map_congr_left fun c hc => h.payload hj ?_
    exact (mem_range.1 hc).trans_le sh.userPayloadSize_le
  unfold HashTable.item keyClass contents
  rw [h.occupied hj,h.key hj,hpay]

/-- Entries with matching keys are reachable from their home, and hold the map `F`. -/
structure Slots (T : KeyTraits Key A) (sh : Shape) (n : ℕ) (data : List (RawObject A))
    (F : T.Class → Option (RawObject A × List (RawObject A))) : Prop where
  length : data.length = sh.firstKeyIndex+sh.entrySize*n
  layout : Layout n (T.home n) (isUnused sh data) (item T sh data)
  represents : Represents n (item T sh data) F

variable (hs : Slots T sh n data F)
include hs

lemma Slots.cell_lt (hi : i < n) {x : ℕ} (hx : x < sh.entrySize) :
    sh.keyIndex i+x < data.length := by
  rw [hs.length]
  exact sh.index_lt hi hx

lemma Slots.numEntries : numEntries sh data = n := numEntries_eq hs.length

lemma Slots.offLength (h : OffEntry sh i data data') :
    data'.length = sh.firstKeyIndex+sh.entrySize*n := h.length.trans hs.length

variable (h : OffEntry sh i data data')
include h

omit hs in
lemma OffEntry.item_eq_ite (j : ℕ) : HashTable.item T sh data' j =
      if j = i then HashTable.item T sh data' i else HashTable.item T sh data j := by
  split_ifs with hj
  · rw [hj]
  · exact h.item hj

lemma Slots.insert [DecidableEq T.Class] {d : ℕ} (hd : d < n)
    (hi : (T.home n (keyClass T sh data' i)+d)%n = i)
    (hpath : ∀ j < d, isUnused sh data ((T.home n (keyClass T sh data' i)+j)%n) = false)
    (hfree : isOccupied sh data i = false) (hocc : isOccupied sh data' i = true)
    (habs : F (keyClass T sh data' i) = none) :
    Slots T sh n data' (Function.update F (keyClass T sh data' i) (some (contents sh data' i))) := by
  have hil : i < n := hi ▸ mod_lt _ (by omega)
  have hk := (hs.represents.absent_iff _).1 habs
  have hitem : ∀ j < n, item T sh data' j =
      if j = i then some (keyClass T sh data' i,contents sh data' i) else item T sh data j := by
    intro j _
    rw [h.item_eq_ite j,item_eq_some.2 ⟨hocc,rfl,rfl⟩]
  refine ⟨hs.offLength h,hs.layout.insert hd hi hpath hk (fun j _ hv => ?_) hitem,
    hs.represents.set hil (fun j hj _ => hk j hj) ?_ hitem⟩
  · by_cases hj : j = i
    · rw [isOccupied,← hj,hv] at hocc
      simp at hocc
    · exact ⟨hj,h.unused hj ▸ hv⟩
  · intro k' x hx
    rw [item_eq_none.2 hfree] at hx
    cases hx

lemma Slots.update [DecidableEq T.Class] (hi : i < n) (hocc : isOccupied sh data i = true)
    (hkey : internalGetKey sh data' i = internalGetKey sh data i) :
    Slots T sh n data' (Function.update F (keyClass T sh data i) (some (contents sh data' i))) := by
  have hclass : keyClass T sh data' i = keyClass T sh data i := by rw [keyClass,hkey,keyClass]
  have hocc' : isOccupied sh data' i = true := by rwa [isOccupied_eq_isKey,hkey,← isOccupied_eq_isKey]
  have hit : item T sh data i = some (keyClass T sh data i,contents sh data i) :=
    item_eq_some.2 ⟨hocc,rfl,rfl⟩
  have hitem : ∀ j < n, item T sh data' j =
      if j = i then some (keyClass T sh data i,contents sh data' i) else item T sh data j := by
    intro j _
    rw [h.item_eq_ite j,item_eq_some.2 ⟨hocc',hclass,rfl⟩]
  refine ⟨hs.offLength h,hs.layout.mono (fun j _ hv => ?_) (fun j hj k w hw => ?_),
    hs.represents.set hi (fun j hj hji x hx => ?_) (fun k x hx => ?_) hitem⟩
  · by_cases hj : j = i
    · rw [isUnused,hj,hkey] at hv
      rw [hj]
      exact hv
    · exact h.unused hj ▸ hv
  · rw [hitem j hj] at hw
    split_ifs at hw with hji
    · cases hw
      subst hji
      exact ⟨_,hit⟩
    · exact ⟨w,hw⟩
  · exact hji (hs.layout.unique j hj i hi _ x _ hx hit)
  · rw [hit] at hx
    cases hx
    rfl

lemma Slots.delete [DecidableEq T.Class]
    (hi : i < n) (hocc : isOccupied sh data i = true) (hdel : isDeleted sh data' i = true) :
    Slots T sh n data' (Function.update F (keyClass T sh data i) none) := by
  have hocc' := isOccupied_of_deleted hdel
  have hunused : isUnused sh data' i = false := by
    rw [Bool.eq_false_iff,Ne,isUnused_iff,isDeleted_iff.1 hdel]
    simp
  have hitem : ∀ j < n, item T sh data' j =
      if j = i then none else item T sh data j := by
    intro j _
    rw [h.item_eq_ite j,item_eq_none.2 hocc']
  refine ⟨hs.offLength h,hs.layout.mono (fun j _ hv => ?_) (fun j hj k w hw => ?_),
    hs.represents.erase hs.layout hi (item_eq_some.2 ⟨hocc,rfl,rfl⟩) hitem⟩
  · by_cases hj : j = i
    · rw [hj,hunused] at hv
      cases hv
    · exact h.unused hj ▸ hv
  · rw [hitem j hj] at hw
    split_ifs at hw
    exact ⟨w,hw⟩

omit h

omit hs in
lemma findStops_iff {key : Key} : findStops T sh data key i = true ↔
    isUnused sh data i = true ∨ ∃ x, item T sh data i = some (T.classOf key,x) := by
  have hmatch : (internalGetKey sh data i).isKey = true →
      (T.isMatch key (internalGetKey sh data i) = true ↔
        ∃ x, item T sh data i = some (T.classOf key,x)) := by
    intro ho
    rw [T.isMatch_iff_class ho]
    constructor
    · intro h
      exact ⟨_,item_eq_some.2 ⟨isOccupied_eq_isKey.trans ho,h,rfl⟩⟩
    · rintro ⟨x,hx⟩
      exact (item_eq_some.1 hx).2.1
  have hitem : (internalGetKey sh data i).isKey = false → item T sh data i = none := fun ho =>
    item_eq_none.2 (isOccupied_eq_isKey.trans ho)
  unfold findStops isUnused
  cases ho : internalGetKey sh data i with
  | sentinel => simp
  | transitionSentinel => simp [hitem (by rw [ho]; rfl)]
  | null | smi | ref =>
    rw [ho] at hmatch
    simpa using hmatch rfl

/-- What a completed probe has found: the entry of the key, or that there is none. -/
def Found (T : KeyTraits Key A) (sh : Shape) (n : ℕ) (data : List (RawObject A))
    (F : T.Class → Option (RawObject A × List (RawObject A))) (key : Key) : Option ℕ → Prop
  | some i => i < n ∧ isOccupied sh data i = true ∧ keyClass T sh data i = T.classOf key ∧
      F (T.classOf key) = some (contents sh data i)
  | none => F (T.classOf key) = none

lemma Slots.found (hi : i < n) {key : Key} {x : RawObject A × List (RawObject A)}
    (h : item T sh data i = some (T.classOf key,x)) : Found T sh n data F key (some i) := by
  obtain ⟨hocc,hclass,rfl⟩ := item_eq_some.1 h
  exact ⟨hi,hocc,hclass,(hs.represents _ _).2 ⟨i,hi,h⟩⟩

lemma Slots.find (hex : ∃ i < n, isUnused sh data i = true) (key : Key) :
    ∃ d < n, search (findStops T sh data key) n n (T.hash key%n) = some ((T.hash key%n+d)%n) ∧
      (∀ j < d, findStops T sh data key ((T.hash key%n+j)%n) = false) ∧
      findStops T sh data key ((T.hash key%n+d)%n) = true ∧
      Found T sh n data F key (if isUnused sh data ((T.hash key%n+d)%n) then none
        else some ((T.hash key%n+d)%n)) := by
  obtain ⟨e,he, -⟩ := id hex
  have hn : 0 < n := (zero_le e).trans_lt he
  obtain ⟨d,hd,hsearch, -,hend⟩ := hs.layout.find hs.represents hex (T.classOf key)
    fun i _ => findStops_iff
  rw [T.home_classOf] at hsearch hend
  obtain ⟨d',hd',hsearch',hstop,hmin⟩ := search_first (mod_lt (T.hash key) hn)
    (p := findStops T sh data key) (by
      obtain ⟨i,hi,hu⟩ := hex
      exact ⟨i,hi,findStops_iff.2 (Or.inl hu)⟩)
  have heq : (T.hash key%n+d)%n = (T.hash key%n+d')%n :=
    Option.some.inj (hsearch.symm.trans hsearch')
  refine ⟨d',hd',hsearch',hmin,hstop,?_⟩
  rw [← heq]
  rcases hend with ⟨x,hx, -⟩ | ⟨hu,hnone⟩
  · rw [isUnused_of_occupied (item_eq_some.1 hx).1]
    exact hs.found (mod_lt _ hn) hx
  · rw [hu]
    exact hnone

omit hs

/-- An entry where a key with home `h` that is not in the table may be inserted. -/
def Vacant (sh : Shape) (n : ℕ) (data : List (RawObject A)) (h i : ℕ) : Prop :=
  isOccupied sh data i = false ∧ ∃ d < n, (h+d)%n = i ∧
    ∀ j < d, isUnused sh data ((h+j)%n) = false

lemma findLoop_spec {key : Key} {h d : ℕ} (hlen : numEntries sh data = n) (hd : d < n)
    (hmin : ∀ j < d, findStops T sh data key ((h+j)%n) = false)
    (hstop : findStops T sh data key ((h+d)%n) = true) : ∀ m j, j+m = d → ∀ fuel, m < fuel →
      ∀ deleted : Option ℕ, (∀ x ∈ deleted, Vacant sh n data h x) → ∃ x,
      findLoop T sh data key fuel ((h+j)%n) deleted =
      some (if isUnused sh data ((h+d)%n) then (x,false) else ((h+d)%n,true)) ∧
      (isUnused sh data ((h+d)%n) = true → Vacant sh n data h x) := by
  have hpath : ∀ j < d, isUnused sh data ((h+j)%n) = false := by
    intro j hj
    rw [Bool.eq_false_iff]
    intro hu
    have := hmin j hj
    rw [findStops_iff.2 (Or.inl hu)] at this
    cases this
  have hnext : ∀ j, ((h+j)%n+1)%n = (h+(j+1))%n := by
    intro j
    rw [mod_add_mod,add_assoc]
  intro m
  induction m with
  | zero =>
    rintro j rfl fuel hfuel deleted hdel
    obtain ⟨fuel,rfl⟩ := exists_fuel fuel
    rw [add_zero] at *
    refine ⟨deleted.getD ((h+j)%n),?_,fun hu => ?_⟩
    · rw [findLoop,if_pos hstop]
      split_ifs <;> rfl
    · cases deleted with
      | none => exact ⟨isOccupied_of_unused hu,j,hd,rfl,hpath⟩
      | some x => exact hdel x rfl
  | succ m ih =>
    intro j hj fuel hfuel deleted hdel
    obtain ⟨fuel,rfl⟩ := exists_fuel fuel
    rw [findLoop,if_neg (by rw [hmin j (by omega)]; simp),hlen,hnext]
    refine ih (j+1) (by omega) fuel (by omega) _ fun x hx => ?_
    split_ifs at hx with hdeleted
    · cases hx
      exact ⟨isOccupied_of_deleted hdeleted.1,j,by omega,rfl,fun j' hj' => hpath j' (by omega)⟩
    · exact hdel x hx

end Slots

end DartSdk.HashTable
