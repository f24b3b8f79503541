import DartSdk.HashTableSlots

/-! The header counts the occupied and the deleted entries, at least one entry is unused, and
enumeration indices, all below `N`, are distinct. -/
namespace DartSdk.HashTable
open LinearProbing List Nat

variable {Key A : Type} {T : KeyTraits Key A} {sh : Shape} {data data' : List (RawObject A)}
  {N n i : ℕ} {F : T.Class → Option (RawObject A × List (RawObject A))}

/-- Occupied entries have distinct enumeration indices below `next`. -/
structure Enumerated (sh : Shape) (n : ℕ) (data : List (RawObject A)) (next : ℕ) : Prop where
  counter : cell data kNextEnumIndex = .smi next
  index : ∀ i < n, isOccupied sh data i = true →
    ∃ e < next, payloadAt sh data i sh.userPayloadSize = .smi (e : ℕ)
  inj : ∀ i < n, ∀ j < n, isOccupied sh data i = true → isOccupied sh data j = true →
    payloadAt sh data i sh.userPayloadSize = payloadAt sh data j sh.userPayloadSize → i = j

structure Inv (T : KeyTraits Key A) (sh : Shape) (N n : ℕ) (data : List (RawObject A))
    (F : T.Class → Option (RawObject A × List (RawObject A))) : Prop where
  slots : Slots T sh n data F
  occupied : cell data kOccupiedEntriesIndex = .smi (size F)
  deleted : cell data kDeletedEntriesIndex = .smi (countSlots n (isDeleted sh data))
  room : size F+countSlots n (isDeleted sh data) < n
  size_le : size F ≤ N
  enum : sh.enumIndex = true → ∃ next ≤ N, Enumerated sh n data next

lemma Slots.size_eq (hs : Slots T sh n data F) : size F = countSlots n (isOccupied sh data) := by
  rw [hs.layout.size_eq hs.represents]
  refine countSlots_congr fun i _ => ?_
  unfold item
  split_ifs with h <;> simp [h]

section
variable (hi : Inv T sh N n data F)
include hi

lemma Inv.exists_unused : ∃ i < n, isUnused sh data i = true := by
  have hroom := hi.room
  rw [hi.slots.size_eq] at hroom
  obtain ⟨i,hin,hocc,hdel⟩ := exists_slot_of_count_lt hroom
  exact ⟨i,hin,by simpa [isOccupied,hdel] using hocc⟩

lemma Inv.numOccupied : numOccupied data = some (size F : ℤ) :=
  getSmiValueAt_eq hi.occupied

lemma Inv.size_lt : size F < n := by
  have := hi.room
  omega

lemma Inv.guard : (size F : ℤ) < (n : ℤ) := by
  exact_mod_cast hi.size_lt

lemma Inv.findKey (key : Key) :
    ∃ r, findKey T sh data key = some r ∧ Found T sh n data F key r := by
  obtain ⟨d, -,hsearch, -, -,hfound⟩ := hi.slots.find hi.exists_unused key
  refine ⟨_,?_,hfound⟩
  unfold HashTable.findKey
  rw [hi.numOccupied]
  simp only [some_bind,hi.slots.numEntries,if_pos hi.guard,hsearch]
  rfl

lemma Inv.findKeyOrDeletedOrUnused (key : Key) :
    ∃ i present, findKeyOrDeletedOrUnused T sh data key = some (i,present) ∧
      if present then Found T sh n data F key (some i)
      else Found T sh n data F key none ∧ Vacant sh n data (T.hash key%n) i := by
  obtain ⟨d,hd, -,hmin,hstop,hfound⟩ := hi.slots.find hi.exists_unused key
  obtain ⟨x,hloop,hvacant⟩ := findLoop_spec hi.slots.numEntries hd hmin hstop d 0 (by omega) n
    hd none (by simp)
  have hcall : HashTable.findKeyOrDeletedOrUnused T sh data key =
      HashTable.findLoop T sh data key n (T.hash key%n) none := by
    unfold HashTable.findKeyOrDeletedOrUnused
    rw [hi.numOccupied]
    simp only [some_bind,hi.slots.numEntries,if_pos hi.guard]
  rw [add_zero,mod_mod] at hloop
  cases hu : isUnused sh data ((T.hash key%n+d)%n) with
  | true =>
    rw [hu] at hloop hfound
    exact ⟨x,false,hcall.trans hloop,hfound,hvacant hu⟩
  | false =>
    rw [hu] at hloop hfound
    exact ⟨_,true,hcall.trans hloop,hfound⟩

end

lemma getPayload_eq (hs : Slots T sh n data F) (hi : i < n) (hocc : isOccupied sh data i = true)
    {c : ℕ} (hc : c < sh.payloadSize) : getPayload sh data i c = some (payloadAt sh data i c) := by
  have hlt : sh.keyIndex i+(1+c) < data.length := hs.cell_lt hi (Nat.add_lt_add_left hc 1)
  rw [getPayload,if_pos ⟨hocc,by rwa [hs.numEntries],hc⟩,payloadIndex_eq,
    getElem?_eq_getElem hlt,payloadAt,cell,getD_eq_getElem _ _ hlt]

lemma updatePayload_eq (hlen : numEntries sh data = n) (hi : i < n)
    (hocc : isOccupied sh data i = true) {c : ℕ} (hc : c < sh.payloadSize) (v : RawObject A) :
    updatePayload sh data i c v = some (data.set (sh.keyIndex i+(1+c)) v) := by
  rw [updatePayload,if_pos ⟨hocc,by rwa [hlen],hc⟩,payloadIndex_eq]

/-- Writes to the payload of entry `i`. -/
structure Payload (sh : Shape) (i : ℕ) (data data' : List (RawObject A)) : Prop where
  off : OffEntry sh i data data'
  key : internalGetKey sh data' i = internalGetKey sh data i
  header : ∀ m < sh.firstKeyIndex, cell data' m = cell data m

lemma Payload.refl (sh : Shape) (i : ℕ) (data : List (RawObject A)) : Payload sh i data data :=
  ⟨.refl sh i data,rfl,fun _ _ => rfl⟩

lemma Payload.set (h : Payload sh i data data') {c : ℕ} (hc : c < sh.payloadSize)
    (v : RawObject A) : Payload sh i data (data'.set (sh.keyIndex i+(1+c)) v) := by
  have hlt : 1+c < sh.entrySize := Nat.add_lt_add_left hc 1
  refine ⟨h.off.trans (.setCell hlt v data'),?_,fun m hm => ?_⟩
  · rw [← h.key]
    exact cell_set_ne _ (by omega) v
  · rw [header_set_cell hm,h.header m hm]

lemma Payload.occupied (h : Payload sh i data data') (j : ℕ) :
    isOccupied sh data' j = isOccupied sh data j := by
  by_cases hj : j = i
  · rw [hj,isOccupied_eq_isKey,h.key,← isOccupied_eq_isKey]
  · exact h.off.occupied hj

lemma Payload.deleted (h : Payload sh i data data') (j : ℕ) :
    isDeleted sh data' j = isDeleted sh data j := by
  by_cases hj : j = i
  · rw [hj,isDeleted,h.key,isDeleted]
  · exact h.off.deleted hj

lemma payloadAt_set {c c' : ℕ} (hlt : sh.keyIndex i+(1+c) < data.length) (v : RawObject A) :
    payloadAt sh (data.set (sh.keyIndex i+(1+c)) v) i c' =
      if c' = c then v else payloadAt sh data i c' := by
  unfold payloadAt
  split_ifs with h
  · rw [h,cell_set hlt]
  · exact cell_set_ne _ (by omega) v

lemma Inv.update [DecidableEq T.Class] (hi : Inv T sh N n data F) (h : Payload sh i data data')
    (hin : i < n) (hocc : isOccupied sh data i = true) (henum : sh.enumIndex = true →
      payloadAt sh data' i sh.userPayloadSize = payloadAt sh data i sh.userPayloadSize) :
    Inv T sh N n data'
      (Function.update F (keyClass T sh data i) (some (contents sh data' i))) := by
  have hslots := hi.slots.update h.off hin hocc h.key
  have hsize : size (Function.update F (keyClass T sh data i) (some (contents sh data' i))) =
      size F := by
    refine size_update_present ?_
    rw [(hi.slots.represents _ _).2 ⟨i,hin,item_eq_some.2 ⟨hocc,rfl,rfl⟩⟩]
    simp
  have hdel : countSlots n (isDeleted sh data') = countSlots n (isDeleted sh data) :=
    countSlots_congr fun j _ => h.deleted j
  refine ⟨hslots,?_,?_,by rw [hsize,hdel]; exact hi.room,hsize ▸ hi.size_le,fun he => ?_⟩
  · rw [h.header _ sh.occupied_lt,hsize,hi.occupied]
  · rw [h.header _ sh.deleted_lt,hdel,hi.deleted]
  · obtain ⟨next,hnext,hE⟩ := hi.enum he
    have hpay : ∀ j, payloadAt sh data' j sh.userPayloadSize =
        payloadAt sh data j sh.userPayloadSize := by
      intro j
      by_cases hj : j = i
      · exact hj ▸ henum he
      · exact h.off.payload hj (sh.userPayloadSize_lt he)
    refine ⟨next,hnext,?_,fun j hj hjo => ?_,fun j hj k hk hjo hko heq => ?_⟩
    · rw [h.header _ (sh.kNextEnumIndex_lt he),hE.counter]
    · rw [hpay]
      exact hE.index j hj (h.occupied j ▸ hjo)
    · rw [hpay,hpay] at heq
      exact hE.inj j hj k hk (h.occupied j ▸ hjo) (h.occupied k ▸ hko) heq

/-- Writes to the two counters. -/
structure Header (data data' : List (RawObject A)) (occupied deleted : ℤ) : Prop where
  length : data'.length = data.length
  occupied : cell data' kOccupiedEntriesIndex = .smi occupied
  deleted : cell data' kDeletedEntriesIndex = .smi deleted
  rest : ∀ m ≥ 2, cell data' m = cell data m

section Header
variable {o d : ℤ}

section
variable (h : Header data data' o d)
include h

lemma Header.setOccupied (v : ℤ) : Header data (data'.set kOccupiedEntriesIndex (.smi v)) v d := by
  refine ⟨length_set.trans h.length,cell_set (lt_length_of_cell h.occupied) _,?_,?_⟩
  · rw [cell_set_ne _ (by decide),h.deleted]
  · intro m hm
    rw [cell_set_ne _ (by simp only [kOccupiedEntriesIndex]; omega),h.rest m hm]

lemma Header.setDeleted (v : ℤ) : Header data (data'.set kDeletedEntriesIndex (.smi v)) o v := by
  refine ⟨length_set.trans h.length,?_,cell_set (lt_length_of_cell h.deleted) _,?_⟩
  · rw [cell_set_ne _ (by decide),h.occupied]
  · intro m hm
    rw [cell_set_ne _ (by simp only [kDeletedEntriesIndex]; omega),h.rest m hm]

lemma Header.entry (j x : ℕ) : cell data' (sh.keyIndex j+x) = cell data (sh.keyIndex j+x) := by
  refine h.rest _ ?_
  have := sh.two_le_firstKeyIndex
  unfold Shape.keyIndex
  omega

lemma Header.off (i : ℕ) : OffEntry sh i data data' :=
  ⟨h.length,fun j _ x _ => h.entry j x⟩

end

lemma insertKeyBase_spec (hlen : data.length = sh.firstKeyIndex+sh.entrySize*n) (hin : i < n)
    (hfree : isOccupied sh data i = false) (ho : cell data kOccupiedEntriesIndex = .smi o)
    (hd : cell data kDeletedEntriesIndex = .smi d) {key : RawObject A} (hkey : key.isKey = true)
    (hroom : o+1 < n) :
    ∃ counted, insertKeyBase sh data i key = some (counted.set (sh.keyIndex i) key) ∧
      Header data counted (o+1) (d-if isDeleted sh data i then 1 else 0) := by
  have hself : Header data data o d := ⟨rfl,ho,hd,fun _ _ => rfl⟩
  have hcounted : ∃ counted, countInsertion sh data i = some counted ∧
      Header data counted (o+1) (d-if isDeleted sh data i then 1 else 0) := by
    have hset := hself.setOccupied (o+1)
    unfold countInsertion
    rw [adjustSmiValueAt_eq ho]
    split_ifs with hdel
    · exact ⟨_,adjustSmiValueAt_eq hset.deleted _,hset.setDeleted _⟩
    · exact ⟨_,rfl,by rw [sub_zero]; exact hset⟩
  obtain ⟨counted,hc,hh⟩ := hcounted
  refine ⟨counted,?_,hh⟩
  have hlt : sh.keyIndex i < counted.length := by
    rw [hh.length,hlen]
    exact sh.index_lt hin sh.entrySize_pos
  have hlen' : (counted.set (sh.keyIndex i) key).length = sh.firstKeyIndex+sh.entrySize*n := by
    rw [length_set,hh.length,hlen]
  have hocc : isOccupied sh (counted.set (sh.keyIndex i) key) i = true := by
    rw [isOccupied_eq_isKey,← hkey]
    exact congrArg RawObject.isKey (cell_set hlt key)
  have hnum : numOccupied (counted.set (sh.keyIndex i) key) = some (o+1) := by
    refine getSmiValueAt_eq ?_
    rw [← add_zero (sh.keyIndex i),header_set_cell sh.occupied_lt,hh.occupied]
  unfold insertKeyBase
  rw [if_pos ⟨by rwa [numEntries_eq hlen],by simp [hfree]⟩,hc]
  simp only [some_bind,hnum,numEntries_eq hlen',hocc,hroom]
  rfl

end Header

/-- What `InsertKey` changes. -/
structure Inserted (sh : Shape) (i : ℕ) (key : RawObject A) (data data' : List (RawObject A)) :
    Prop where
  off : OffEntry sh i data data'
  key : internalGetKey sh data' i = key
  payload : ∀ c < sh.userPayloadSize, payloadAt sh data' i c = payloadAt sh data i c

lemma Inserted.occupied {key : RawObject A} (h : Inserted sh i key data data')
    (hkey : key.isKey = true) : isOccupied sh data' i = true := by
  rw [isOccupied_eq_isKey,h.key,hkey]

lemma Inserted.contents {key : RawObject A} (h : Inserted sh i key data data') :
    contents sh data' i = (key,userPayload sh data i) := by
  have hpay : userPayload sh data' i = userPayload sh data i :=
    map_congr_left fun c hc => h.payload c (mem_range.1 hc)
  rw [HashTable.contents,h.key,hpay]

lemma Vacant.lt {h : ℕ} (hv : Vacant sh n data h i) : i < n := by
  obtain ⟨-,d,hd,rfl, -⟩ := hv
  exact mod_lt _ (by omega)

lemma Header.inserted {counted : List (RawObject A)} {o d : ℤ} (hh : Header data counted o d)
    (hlt : sh.keyIndex i < data.length) (key : RawObject A) :
    Inserted sh i key data (counted.set (sh.keyIndex i) key) := by
  refine ⟨(hh.off i).trans (.setCell sh.entrySize_pos key counted),cell_set (hh.length ▸ hlt) key,
    fun c _ => ?_⟩
  unfold payloadAt
  rw [cell_set_ne _ (by omega),hh.entry]

lemma Inv.inserted [DecidableEq T.Class] (hi : Inv T sh N n data F) {key : RawObject A}
    (h : Inserted sh i key data data') (hkey : key.isKey = true) {k : Key}
    (hv : Vacant sh n data (T.hash k%n) i) (hk : T.classOf (T.ofObject key) = T.classOf k)
    (habs : F (T.classOf k) = none) (hroom : size F+countSlots n (isDeleted sh data)+1 < n)
    (ho : cell data' kOccupiedEntriesIndex = .smi (size F+1))
    (hd : cell data' kDeletedEntriesIndex =
      .smi (countSlots n (isDeleted sh data)-if isDeleted sh data i then 1 else 0))
    (henum : sh.enumIndex = true → ∃ next ≤ N+1, Enumerated sh n data' next) :
    Inv T sh (N+1) n data'
      (Function.update F (T.classOf k) (some (key,userPayload sh data i))) := by
  have hin := hv.lt
  obtain ⟨hfree,d,hdn,hpos,hpath⟩ := hv
  have hclass : keyClass T sh data' i = T.classOf k := by rw [keyClass,h.key,hk]
  have hslots := hi.slots.insert h.off hdn (by rwa [hclass,T.home_classOf])
    (by rwa [hclass,T.home_classOf]) hfree (h.occupied hkey) (by rwa [hclass])
  rw [hclass,h.contents] at hslots
  have hsize := size_update_absent (v := (key,userPayload sh data i))
    hi.slots.represents.finite habs
  have hcount := countSlots_change (q := isDeleted sh data') hin
    fun j _ hj => h.off.deleted hj
  have hnot : isDeleted sh data' i = false := by
    rw [Bool.eq_false_iff]
    intro hdel
    have := isOccupied_of_deleted hdel
    rw [h.occupied hkey] at this
    cases this
  rw [hnot] at hcount
  simp only [Bool.false_eq_true,if_false,add_zero] at hcount
  have hle := hi.size_le
  refine ⟨hslots,?_,?_,by omega,by omega,henum⟩
  · rw [ho,hsize]
    rfl
  · rw [hd,← hcount]
    push_cast
    congr 1
    omega

lemma Enumerated.insert {next : ℕ} (hE : Enumerated sh n data next) (he : sh.enumIndex = true)
    (hoff : OffEntry sh i data data') (hcounter : cell data' kNextEnumIndex = .smi (next+1 : ℕ))
    (hindex : payloadAt sh data' i sh.userPayloadSize = .smi next) :
    Enumerated sh n data' (next+1) := by
  have hold : ∀ j < n, j ≠ i → isOccupied sh data' j = true →
      ∃ e < next, payloadAt sh data' j sh.userPayloadSize = .smi (e : ℕ) := by
    intro j hj hji hocc
    rw [hoff.payload hji (sh.userPayloadSize_lt he)]
    exact hE.index j hj (hoff.occupied hji ▸ hocc)
  refine ⟨hcounter,fun j hj hocc => ?_,fun j hj k hk hjo hko heq => ?_⟩
  · by_cases hji : j = i
    · exact ⟨next,by omega,hji ▸ hindex⟩
    · obtain ⟨e,he',hpay⟩ := hold j hj hji hocc
      exact ⟨e,by omega,hpay⟩
  · by_cases hji : j = i <;> by_cases hki : k = i
    · rw [hji,hki]
    · obtain ⟨e,he',hpay⟩ := hold k hk hki hko
      rw [hji,hindex,hpay,RawObject.smi.injEq] at heq
      omega
    · obtain ⟨e,he',hpay⟩ := hold j hj hji hjo
      rw [hki,hindex,hpay,RawObject.smi.injEq] at heq
      omega
    · have hlt := sh.userPayloadSize_lt he
      rw [hoff.payload hji hlt,hoff.payload hki hlt] at heq
      exact hE.inj j hj k hk (hoff.occupied hji ▸ hjo) (hoff.occupied hki ▸ hko) heq

lemma Inv.insertKey [DecidableEq T.Class] (hi : Inv T sh N n data F) {key : RawObject A}
    (hkey : key.isKey = true) {k : Key} (hv : Vacant sh n data (T.hash k%n) i)
    (hk : T.classOf (T.ofObject key) = T.classOf k) (habs : F (T.classOf k) = none)
    (hroom : size F+countSlots n (isDeleted sh data)+1 < n)
    (hN : sh.enumIndex = true → N < kSmiMax) :
    ∃ data', insertKey sh data i key = some data' ∧ Inserted sh i key data data' ∧
      Inv T sh (N+1) n data'
        (Function.update F (T.classOf k) (some (key,userPayload sh data i))) := by
  have hin := hv.lt
  obtain ⟨counted,hbase,hh⟩ := insertKeyBase_spec hi.slots.length hin hv.1 hi.occupied hi.deleted
    hkey (by omega)
  have hlt : sh.keyIndex i < data.length := hi.slots.cell_lt hin sh.entrySize_pos
  have hins := hh.inserted hlt key
  have hheader : ∀ m < sh.firstKeyIndex,
      cell (counted.set (sh.keyIndex i) key) m = cell counted m := fun m hm => by
    rw [← add_zero (sh.keyIndex i),header_set_cell hm]
  generalize counted.set (sh.keyIndex i) key = base at hbase hins hheader
  have ho : cell base kOccupiedEntriesIndex = .smi (size F+1) := by
    rw [hheader _ sh.occupied_lt,hh.occupied]
  have hd : cell base kDeletedEntriesIndex =
      .smi (countSlots n (isDeleted sh data)-if isDeleted sh data i then 1 else 0) := by
    rw [hheader _ sh.deleted_lt,hh.deleted]
  unfold HashTable.insertKey
  rw [hbase]
  cases he : sh.enumIndex with
  | false =>
    refine ⟨_,rfl,hins,hi.inserted hins hkey hv hk habs hroom ho hd fun h => ?_⟩
    rw [he] at h
    cases h
  | true =>
    obtain ⟨next,hnext,hE⟩ := hi.enum he
    have huser := sh.userPayloadSize_lt he
    have hlt2 := sh.kNextEnumIndex_lt he
    have hcounter : cell base kNextEnumIndex = .smi next := by
      rw [hheader _ hlt2,hh.rest _ (by decide),hE.counter]
    have hlen : base.length = sh.firstKeyIndex+sh.entrySize*n := hi.slots.offLength hins.off
    have hpay := (Payload.refl sh i base).set huser (.smi next)
    have hcounter' := (hpay.header _ hlt2).trans hcounter
    set inner := base.set (sh.keyIndex i+(1+sh.userPayloadSize)) (.smi next) with hinner
    have hcall : (do
        let next ← getSmiValueAt base kNextEnumIndex
        let data ← updatePayload sh base i sh.userPayloadSize (.smi next)
        if next+1 ≤ kSmiMax then adjustSmiValueAt data kNextEnumIndex 1 else none) =
        some (inner.set kNextEnumIndex (.smi (next+1))) := by
      have hsmi : (next : ℤ)+1 ≤ kSmiMax := by
        have := hN he
        omega
      rw [getSmiValueAt_eq hcounter]
      simp only [some_bind]
      rw [updatePayload_eq (numEntries_eq hlen) hin (hins.occupied hkey) huser]
      simp only [some_bind,if_pos hsmi,← hinner,adjustSmiValueAt_eq hcounter']
    have hins' : Inserted sh i key data (inner.set kNextEnumIndex (.smi (next+1))) := by
      refine ⟨(hins.off.trans hpay.off).trans (.setHeader hlt2 _ i _),?_,fun c hc => ?_⟩
      · rw [← hins.key,← hpay.key]
        exact cell_set_header hlt2 _ i (x := 0) inner
      · rw [← hins.payload c hc]
        unfold payloadAt
        rw [cell_set_header hlt2,hinner,cell_set_ne _ (by omega)]
    refine ⟨_,hcall,hins',hi.inserted hins' hkey hv hk habs hroom ?_ ?_ fun _ => ?_⟩
    · rw [cell_set_ne _ (by decide),hpay.header _ sh.occupied_lt,ho]
    · rw [cell_set_ne _ (by decide),hpay.header _ sh.deleted_lt,hd]
    · refine ⟨next+1,by omega,hE.insert he hins'.off ?_ ?_⟩
      · rw [cell_set (lt_length_of_cell hcounter')]
        rfl
      · have hlt3 : sh.keyIndex i+(1+sh.userPayloadSize) < base.length := by
          rw [hlen]
          exact sh.index_lt hin (Nat.add_lt_add_left huser 1)
        unfold payloadAt
        rw [cell_set_header hlt2,hinner,cell_set hlt3]

lemma Enumerated.delete {next : ℕ} (hE : Enumerated sh n data next) (he : sh.enumIndex = true)
    (hoff : OffEntry sh i data data') (hocc : isOccupied sh data' i = false)
    (hcounter : cell data' kNextEnumIndex = cell data kNextEnumIndex) :
    Enumerated sh n data' next := by
  have huser := sh.userPayloadSize_lt he
  have hstill : ∀ j, isOccupied sh data' j = true → j ≠ i := by
    rintro j hj rfl
    rw [hocc] at hj
    cases hj
  refine ⟨hcounter.trans hE.counter,fun j hj hjo => ?_,fun j hj k hk hjo hko heq => ?_⟩
  · rw [hoff.payload (hstill j hjo) huser]
    exact hE.index j hj (hoff.occupied (hstill j hjo) ▸ hjo)
  · rw [hoff.payload (hstill j hjo) huser,hoff.payload (hstill k hko) huser] at heq
    exact hE.inj j hj k hk (hoff.occupied (hstill j hjo) ▸ hjo)
      (hoff.occupied (hstill k hko) ▸ hko) heq

lemma clearPayload_spec (hlen : numEntries sh data = n) (hin : i < n)
    (hocc : isOccupied sh data i = true) : ∃ data', (range sh.payloadSize).foldlM
        (fun data c => updatePayload sh data i c .transitionSentinel) data = some data' ∧
      Payload sh i data data' := by
  refine Iteration.foldlM_range_total (fun _ => Payload sh i data) (Payload.refl sh i data)
    fun c hc t ht => ?_
  refine ⟨_,updatePayload_eq ?_ hin ((ht.occupied i).trans hocc) hc _,ht.set hc _⟩
  rw [numEntries,ht.off.length]
  exact hlen

lemma Inv.deleteEntry [DecidableEq T.Class] (hi : Inv T sh N n data F) (hin : i < n)
    (hocc : isOccupied sh data i = true) : ∃ data', deleteEntry sh data i = some data' ∧
      Inv T sh N n data' (Function.update F (keyClass T sh data i) none) := by
  obtain ⟨cleared,hclear,hpay⟩ := clearPayload_spec hi.slots.numEntries hin hocc
  have hkeys : ∀ m < sh.firstKeyIndex,
      cell (cleared.set (sh.keyIndex i) .transitionSentinel) m = cell data m := fun m hm => by
    rw [← add_zero (sh.keyIndex i),header_set_cell hm,hpay.header m hm]
  have hself : Header (cleared.set (sh.keyIndex i) .transitionSentinel)
      (cleared.set (sh.keyIndex i) .transitionSentinel) (size F)
      (countSlots n (isDeleted sh data)) := by
    refine ⟨rfl,?_,?_,fun _ _ => rfl⟩
    · rw [hkeys _ sh.occupied_lt,hi.occupied]
    · rw [hkeys _ sh.deleted_lt,hi.deleted]
  have h1 := hself.setOccupied (size F + -1)
  have h2 := h1.setDeleted (countSlots n (isDeleted sh data)+1)
  have hoff : OffEntry sh i data _ :=
    (hpay.off.trans (.setCell sh.entrySize_pos .transitionSentinel cleared)).trans (h2.off i)
  have hkey : isDeleted sh _ i = true := isDeleted_iff.2 ((h2.entry i 0).trans
    (cell_set (hpay.off.length ▸ hi.slots.cell_lt hin sh.entrySize_pos) _))
  have hsize : size (Function.update F (keyClass T sh data i) none)+1 = size F := by
    refine size_update_none hi.slots.represents.finite ?_
    rw [(hi.slots.represents _ _).2 ⟨i,hin,item_eq_some.2 ⟨hocc,rfl,rfl⟩⟩]
    simp
  have hnot : isDeleted sh data i = false := by
    rw [isOccupied,Bool.and_eq_true,Bool.not_eq_true',Bool.not_eq_true'] at hocc
    exact hocc.2
  have hcount := countSlots_change (q := isDeleted sh _) hin
    fun j _ hj => hoff.deleted hj
  rw [hnot,hkey] at hcount
  simp only [Bool.false_eq_true,if_false,if_true,add_zero] at hcount
  have hroom := hi.room
  have hle := hi.size_le
  refine ⟨_,?_,hi.slots.delete hoff hin hocc hkey,?_,?_,by omega,by omega,fun he => ?_⟩
  · unfold HashTable.deleteEntry
    rw [if_pos ⟨hocc,by rwa [hi.slots.numEntries]⟩,hclear]
    simp only [some_bind]
    rw [adjustSmiValueAt_eq hself.occupied]
    simp only [some_bind]
    rw [adjustSmiValueAt_eq h1.deleted]
  · rw [h2.occupied,← hsize]
    congr 1
    omega
  · rw [h2.deleted,hcount]
    rfl
  · obtain ⟨next,hnext,hE⟩ := hi.enum he
    refine ⟨next,hnext,hE.delete he hoff (isOccupied_of_deleted hkey) ?_⟩
    rw [h2.rest _ (by decide),hkeys _ (sh.kNextEnumIndex_lt he)]

end DartSdk.HashTable
