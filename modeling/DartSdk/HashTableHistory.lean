import DartSdk.HashTableCopy

/-! A `HashMap` is a finite map from classes of matching keys to values, and a `HashSet` one to the
key objects that are stored. -/
namespace DartSdk.HashTable
open Iteration (Legal exec run run_append run_refines_upto)
open LinearProbing Nat Option Prod Function HashTable

variable {Key A : Type} {T : KeyTraits Key A} {sh : Shape} {data : List (RawObject A)}
  {N n i : ℕ} {F : T.Class → Option (RawObject A × List (RawObject A))}

section Steps
variable [DecidableEq T.Class]

variable (hi : Inv T sh N n data F)
include hi

lemma Inv.locate (hN : sh.enumIndex = true → N ≤ kSmiMax) (key : Key) :
    ∃ m grown i present, HashTable.ensureCapacity T sh data = some grown ∧
      HashTable.findKeyOrDeletedOrUnused T sh grown key = some (i,present) ∧ Inv T sh N m grown F ∧
      (present = true ∧ Found T sh m grown F key (some i) ∨
        present = false ∧ F (T.classOf key) = none ∧ Vacant sh m grown (T.hash key%m) i ∧
          size F+countSlots m (isDeleted sh grown)+1 < m) := by
  obtain ⟨m,grown,hgrow,hinv,hroom⟩ := hi.ensureCapacity hN
  obtain ⟨i,present,hfind,hres⟩ := hinv.findKeyOrDeletedOrUnused key
  refine ⟨m,grown,i,present,hgrow,hfind,hinv,?_⟩
  cases present with
  | true => exact Or.inl ⟨rfl,hres⟩
  | false => exact Or.inr ⟨rfl,hres.1,hres.2,hroom⟩

omit hi in
lemma contents_headD (h : 0 < sh.userPayloadSize) (data : List (RawObject A)) (i : ℕ) :
    (contents sh data i).2.headD .null = payloadAt sh data i 0 := by
  obtain ⟨k,hk⟩ := exists_eq_succ_of_ne_zero h.ne'
  simp [contents,userPayload,hk,List.range_succ_eq_map]

lemma Inv.setValue (huser : 0 < sh.userPayloadSize) (hin : i < n)
    (hocc : isOccupied sh data i = true) (v : RawObject A) :
    ∃ data' x, updatePayload sh data i 0 v = some data' ∧ x.2.headD .null = v ∧
      Inv T sh N n data' (Function.update F (keyClass T sh data i) (some x)) := by
  have hc : 0 < sh.payloadSize := huser.trans_le sh.userPayloadSize_le
  have hlt := hi.slots.cell_lt hin (Nat.add_lt_add_left hc 1)
  refine ⟨_,contents sh _ i,updatePayload_eq hi.slots.numEntries hin hocc hc v,?_,
    hi.update ((Payload.refl sh i data).set hc v) hin hocc fun _ => ?_⟩
  · rw [contents_headD huser,payloadAt_set hlt,if_pos rfl]
  · rw [payloadAt_set hlt,if_neg huser.ne']

lemma Inv.storeNew (huser : 0 < sh.userPayloadSize) {o : RawObject A} (ho : o.isKey = true)
    {key : Key} (hv : Vacant sh n data (T.hash key%n) i)
    (hk : T.classOf (T.ofObject o) = T.classOf key) (habs : F (T.classOf key) = none)
    (hroom : size F+countSlots n (isDeleted sh data)+1 < n) (hN : sh.enumIndex = true → N < kSmiMax)
    (v : RawObject A) : ∃ mid data' x, HashTable.insertKey sh data i o = some mid ∧
      updatePayload sh mid i 0 v = some data' ∧ x.2.headD .null = v ∧
      Inv T sh (N+1) n data' (Function.update F (T.classOf key) (some x)) := by
  obtain ⟨mid,hins,hinserted,hmid⟩ := hi.insertKey ho hv hk habs hroom hN
  obtain ⟨data',x,hset,hx,hinv⟩ := hmid.setValue huser hv.lt (hinserted.occupied ho) v
  refine ⟨mid,data',x,hins,hset,hx,?_⟩
  rwa [keyClass,hinserted.key,hk,Function.update_idem] at hinv

lemma Inv.remove (key : Key) :
    ∃ data', remove T sh data key = some (data',(F (T.classOf key)).isSome) ∧
      Inv T sh N n data' (Function.update F (T.classOf key) none) := by
  obtain ⟨r,hfind,hfound⟩ := hi.findKey key
  unfold HashTable.remove
  rw [hfind]
  cases r with
  | none =>
    have hnone : F (T.classOf key) = none := hfound
    refine ⟨data,by rw [hnone]; rfl,?_⟩
    rwa [← hnone,update_eq_self]
  | some i =>
    obtain ⟨hin,hocc,hclass,hsome⟩ := hfound
    obtain ⟨data',hdel,hinv⟩ := hi.deleteEntry hin hocc
    refine ⟨data',by simp [hdel,hsome],hclass ▸ hinv⟩

end Steps

lemma Inv.containsKey (hi : Inv T sh N n data F) (key : Key) :
    containsKey T sh data key = some (F (T.classOf key)).isSome := by
  obtain ⟨r,hfind,hfound⟩ := hi.findKey key
  unfold HashTable.containsKey
  rw [hfind]
  cases r with
  | none =>
    have hnone : F (T.classOf key) = none := hfound
    simp [hnone]
  | some i => simp [hfound.2.2.2]

section View
variable {β : Type} (g : RawObject A × List (RawObject A) → β)

def view (F : T.Class → Option (RawObject A × List (RawObject A))) : T.Class → Option β :=
  fun c => (F c).map g

lemma view_update [DecidableEq T.Class] (c : T.Class)
    (x : Option (RawObject A × List (RawObject A))) :
    view g (update F c x) = update (view g F) c (x.map g) := by
  funext c'
  unfold view
  by_cases h : c' = c
  · simp [h]
  · simp [h]

lemma view_isSome (c : T.Class) : (view g F c).isSome = (F c).isSome := isSome_map

/-- The array holds the finite map `M` of what `g` shows of an entry. -/
def Holds (T : KeyTraits Key A) (sh : Shape) (N : ℕ) (data : List (RawObject A))
    (M : T.Class → Option β) : Prop :=
  ∃ n F, Inv T sh N n data F ∧ M = view g F

variable {g} {M : T.Class → Option β}

variable (h : Holds g T sh N data M)
include h

lemma Holds.succ : Holds g T sh (N+1) data M := by
  obtain ⟨n,F,hi,rfl⟩ := h
  exact ⟨n,F,hi.mono (le_succ N),rfl⟩

lemma Holds.remove [DecidableEq T.Class] (key : Key) :
    ∃ data', remove T sh data key = some (data',(M (T.classOf key)).isSome) ∧
      Holds g T sh N data' (update M (T.classOf key) none) := by
  obtain ⟨n,F,hi,rfl⟩ := h
  obtain ⟨data',hs,hd⟩ := hi.remove key
  refine ⟨data',by rw [hs,view_isSome],n,_,hd,?_⟩
  rw [view_update]
  rfl

lemma Holds.clear : ∃ data', initializeTable sh data = some data' ∧
      Holds g T sh N data' (fun _ : T.Class => none) := by
  obtain ⟨n,F,hi,rfl⟩ := h
  obtain ⟨data',hs,hd, -⟩ := initializeTable_spec T hi.slots.length (by have := hi.room; omega)
  exact ⟨data',hs,n,_,hd.mono (zero_le _),rfl⟩

lemma Holds.containsKey (key : Key) :
    containsKey T sh data key = some (M (T.classOf key)).isSome := by
  obtain ⟨n,F,hi,rfl⟩ := h
  rw [hi.containsKey,view_isSome]

omit h

lemma newTable_holds (g : RawObject A × List (RawObject A) → β) (T : KeyTraits Key A) (sh : Shape)
    (capacity : ℕ) :
    ∃ data, newTable sh capacity = some data ∧ Holds g T sh 0 data (fun _ => none) := by
  obtain ⟨data,hs,hd, -⟩ := newTable_spec T sh capacity
  exact ⟨data,hs,_,_,hd,rfl⟩

end View

/-- What is visible of the array after an operation. -/
structure Consistent (sh : Shape) (data : List (RawObject A)) : Prop where
  unused : ∃ i < numEntries sh data, isUnused sh data i = true
  occupied : numOccupied data = some (countSlots (numEntries sh data) (isOccupied sh data) : ℤ)
  deleted : numDeleted data = some (countSlots (numEntries sh data) (isDeleted sh data) : ℤ)

lemma Inv.consistent (hi : Inv T sh N n data F) : Consistent sh data := by
  refine ⟨?_,?_,?_⟩
  · rw [hi.slots.numEntries]
    exact hi.exists_unused
  · rw [hi.slots.numEntries,← hi.slots.size_eq]
    exact hi.numOccupied
  · rw [hi.slots.numEntries]
    exact getSmiValueAt_eq hi.deleted

inductive Result (A : Type)
  | done
  | flag (b : Bool)
  | object (o : RawObject A)
  | found (present : Bool) (o : RawObject A)
  deriving DecidableEq, Repr

namespace HashMap

inductive Op (Key A : Type)
  | updateOrInsert (key value : RawObject A)
  | insertOrGetValue (key valueIfAbsent : RawObject A)
  | insertNewOrGetValue (key : Key) (valueIfAbsent : RawObject A)
  | updateValue (key : Key) (value : RawObject A)
  | remove (key : Key)
  | clear
  | containsKey (key : Key)
  | getOrNull (key : Key)

/-- An `UnorderedHashMap` or an `EnumIndexHashMap`. -/
def shape (enumIndex : Bool) : Shape := ⟨1,enumIndex⟩

def step (T : KeyTraits Key A) (sh : Shape) (data : List (RawObject A)) :
    Op Key A → Option (List (RawObject A) × Result A)
  | .updateOrInsert key value => do
    let (data,present) ← HashTable.updateOrInsert T sh data key value
    return (data,.flag present)
  | .insertOrGetValue key valueIfAbsent => do
    let (data,value) ← HashTable.insertOrGetValue T sh data key valueIfAbsent
    return (data,.object value)
  | .insertNewOrGetValue key valueIfAbsent => do
    let (data,value) ← HashTable.insertNewOrGetValue T sh data key valueIfAbsent
    return (data,.object value)
  | .updateValue key value => do
    let data ← HashTable.updateValue T sh data key value
    return (data,.done)
  | .remove key => do
    let (data,present) ← HashTable.remove T sh data key
    return (data,.flag present)
  | .clear => do
    let data ← initializeTable sh data
    return (data,.done)
  | .containsKey key => do
    let present ← HashTable.containsKey T sh data key
    return (data,.flag present)
  | .getOrNull key => do
    let (present,value) ← HashTable.getOrNull T sh data key
    return (data,.found present value)

section Spec
variable (T : KeyTraits Key A) [DecidableEq T.Class]

section
variable (M : T.Class → Option (RawObject A))

/-- The value for `c` or else a new one. -/
def specInsert (c : T.Class) (valueIfAbsent : RawObject A) :
    (T.Class → Option (RawObject A)) × Result A :=
  (Function.update M c (some ((M c).getD valueIfAbsent)),.object ((M c).getD valueIfAbsent))

/-- The same operations on a finite map. -/
def spec : Op Key A → (T.Class → Option (RawObject A)) × Result A
  | .updateOrInsert key value =>
    let c := T.classOf (T.ofObject key)
    (Function.update M c (some value),.flag (M c).isSome)
  | .insertOrGetValue key valueIfAbsent => specInsert T M (T.classOf (T.ofObject key)) valueIfAbsent
  | .insertNewOrGetValue key valueIfAbsent => specInsert T M (T.classOf key) valueIfAbsent
  | .updateValue key value => (Function.update M (T.classOf key) (some value),.done)
  | .remove key => (Function.update M (T.classOf key) none,.flag (M (T.classOf key)).isSome)
  | .clear => (fun _ => none,.done)
  | .containsKey key => (M,.flag (M (T.classOf key)).isSome)
  | .getOrNull key => (M,.found (M (T.classOf key)).isSome ((M (T.classOf key)).getD .null))

/-- What the callers owe: sentinels are not keys, `NewKey` exists for the type of the key, and
`UpdateValue` is called for keys in the map. -/
def Allowed : Op Key A → Prop
  | .updateOrInsert key _ => key.isKey = true
  | .insertOrGetValue key _ => key.isKey = true
  | .insertNewOrGetValue key _ => (T.newKey key).isSome = true
  | .updateValue key _ => M (T.classOf key) ≠ none
  | _ => True

end

end Spec

def value (x : RawObject A × List (RawObject A)) : RawObject A := x.2.headD .null

lemma view_value (huser : 0 < sh.userPayloadSize) {c : T.Class}
    (h : F c = some (contents sh data i)) : view value F c = some (payloadAt sh data i 0) := by
  rw [view,h,map_some,value,contents_headD huser]

section Steps
variable {M : T.Class → Option (RawObject A)} [DecidableEq T.Class]

variable (h : Holds value T sh N data M) (huser : 0 < sh.userPayloadSize)
include h huser

lemma updateOrInsert_spec (hN : sh.enumIndex = true → N < kSmiMax) {o : RawObject A}
    (ho : o.isKey = true) (v : RawObject A) : ∃ data', updateOrInsert T sh data o v =
      some (data',(M (T.classOf (T.ofObject o))).isSome) ∧
      Holds value T sh (N+1) data' (update M (T.classOf (T.ofObject o)) (some v)) := by
  obtain ⟨n,F,hi,rfl⟩ := h
  obtain ⟨m,grown,i,present,hgrow,hfind,hinv,hcase⟩ :=
    hi.locate (fun he => (hN he).le) (T.ofObject o)
  rw [view_isSome]
  unfold updateOrInsert
  rw [hgrow]
  simp only [some_bind,hfind]
  rcases hcase with ⟨rfl,hin,hocc,hclass,hsome⟩ | ⟨rfl,habs,hv,hroom⟩
  · obtain ⟨data',x,hset,hx,hnew⟩ := hinv.setValue huser hin hocc v
    refine ⟨data',by simp [hset,hsome],m,_,hnew.mono (le_succ N),?_⟩
    rw [hclass,view_update,map_some,value,hx]
  · obtain ⟨mid,data',x,hins,hset,hx,hnew⟩ :=
      hinv.storeNew huser ho hv rfl habs hroom hN v
    refine ⟨data',by simp [hins,hset,habs],m,_,hnew,?_⟩
    rw [view_update,map_some,value,hx]

lemma insertValue_spec
    (hN : sh.enumIndex = true → N < kSmiMax) {key : Key} {o : RawObject A} (ho : o.isKey = true)
    (hk : T.classOf (T.ofObject o) = T.classOf key) (v : RawObject A) :
    ∃ data', insertValue T sh data key (some o) v = some (data',(M (T.classOf key)).getD v) ∧
      Holds value T sh (N+1) data'
        (update M (T.classOf key) (some ((M (T.classOf key)).getD v))) := by
  obtain ⟨n,F,hi,rfl⟩ := h
  obtain ⟨m,grown,i,present,hgrow,hfind,hinv,hcase⟩ := hi.locate (fun he => (hN he).le) key
  unfold insertValue
  rw [hgrow]
  simp only [some_bind,hfind]
  rcases hcase with ⟨rfl,hin,hocc,hclass,hsome⟩ | ⟨rfl,habs,hv,hroom⟩
  · have hval := view_value huser hsome
    have hget := getPayload_eq hinv.slots hin hocc (huser.trans_le sh.userPayloadSize_le)
    refine ⟨grown,by simp [hget,hval],m,F,hinv.mono (le_succ N),?_⟩
    rw [hval,getD_some,← hval,update_eq_self]
  · have hval : view value F (T.classOf key) = none := by rw [view,habs,map_none]
    obtain ⟨mid,data',x,hins,hset,hx,hnew⟩ :=
      hinv.storeNew huser ho hv hk habs hroom hN v
    refine ⟨data',by simp [hins,hset,hval],m,_,hnew,?_⟩
    rw [hval,view_update,map_some,value,hx,getD_none]

lemma updateValue_spec {key : Key}
    (hpresent : M (T.classOf key) ≠ none) (v : RawObject A) : ∃ data', updateValue T sh data key v =
      some data' ∧ Holds value T sh N data' (update M (T.classOf key) (some v)) := by
  obtain ⟨n,F,hi,rfl⟩ := h
  obtain ⟨r,hfind,hfound⟩ := hi.findKey key
  unfold updateValue
  rw [hfind]
  cases r with
  | none =>
    have hnone : F (T.classOf key) = none := hfound
    exact absurd (by rw [view,hnone,map_none]) hpresent
  | some i =>
    obtain ⟨hin,hocc,hclass, -⟩ := hfound
    obtain ⟨data',x,hset,hx,hnew⟩ := hi.setValue huser hin hocc v
    refine ⟨data',hset,n,_,hnew,?_⟩
    rw [hclass,view_update,map_some,value,hx]

omit huser

omit h

omit [DecidableEq T.Class] in
lemma getOrNull_spec (h : Holds value T sh N data M) (huser : 0 < sh.userPayloadSize) (key : Key) :
    getOrNull T sh data key = some ((M (T.classOf key)).isSome,(M (T.classOf key)).getD .null) := by
  obtain ⟨n,F,hi,rfl⟩ := h
  obtain ⟨r,hfind,hfound⟩ := hi.findKey key
  unfold getOrNull
  rw [hfind]
  cases r with
  | none =>
    have hnone : F (T.classOf key) = none := hfound
    simp [view,hnone]
  | some i =>
    obtain ⟨hin,hocc, -,hsome⟩ := hfound
    have hget := getPayload_eq hi.slots hin hocc (huser.trans_le sh.userPayloadSize_le)
    simp [view_value huser hsome,hget]

lemma Holds.step (h : Holds value T sh N data M) (huser : 0 < sh.userPayloadSize)
    (hN : sh.enumIndex = true → N < kSmiMax) (op : Op Key A) (hop : Allowed T M op) :
    ∃ data', HashMap.step T sh data op = some (data',(spec T M op).2) ∧
      Holds value T sh (N+1) data' (spec T M op).1 := by
  cases op with
  | updateOrInsert key v =>
    obtain ⟨data',hs,hd⟩ := updateOrInsert_spec h huser hN hop v
    exact ⟨data',by simp [HashMap.step,hs,spec],hd⟩
  | insertOrGetValue key v =>
    obtain ⟨data',hs,hd⟩ := insertValue_spec h huser hN hop rfl v
    exact ⟨data',by simp [HashMap.step,insertOrGetValue,hs,spec,specInsert],hd⟩
  | insertNewOrGetValue key v =>
    obtain ⟨o,ho⟩ := isSome_iff_exists.1 hop
    obtain ⟨hkey,heq⟩ := T.newKey_equiv key o ho
    obtain ⟨data',hs,hd⟩ :=
      insertValue_spec h huser hN hkey (T.classOf_eq_iff.2 heq).symm v
    exact ⟨data',by simp [HashMap.step,insertNewOrGetValue,ho,hs,spec,specInsert],hd⟩
  | updateValue key v =>
    obtain ⟨data',hs,hd⟩ := updateValue_spec h huser hop v
    exact ⟨data',by simp [HashMap.step,hs,spec],hd.succ⟩
  | remove key =>
    obtain ⟨data',hs,hd⟩ := h.remove key
    exact ⟨data',by simp [HashMap.step,hs,spec],hd.succ⟩
  | clear =>
    obtain ⟨data',hs,hd⟩ := h.clear
    exact ⟨data',by simp [HashMap.step,hs,spec],hd.succ⟩
  | containsKey key => exact ⟨data,by simp [HashMap.step,h.containsKey,spec],h.succ⟩
  | getOrNull key => exact ⟨data,by simp [HashMap.step,getOrNull_spec h huser,spec],h.succ⟩

end Steps

end HashMap

namespace HashSet

inductive Op (Key A : Type)
  | insert (key : RawObject A)
  | insertNewOrGet (key : Key)
  | remove (key : Key)
  | clear
  | containsKey (key : Key)
  | getOrNull (key : Key)

/-- An `UnorderedHashSet` or an `EnumIndexHashSet`. -/
def shape (enumIndex : Bool) : Shape := ⟨0,enumIndex⟩

def step (T : KeyTraits Key A) (sh : Shape) (data : List (RawObject A)) :
    Op Key A → Option (List (RawObject A) × Result A)
  | .insert key => do
    let (data,present) ← HashTable.insert T sh data key
    return (data,.flag present)
  | .insertNewOrGet key => do
    let (data,object) ← HashTable.insertNewOrGet T sh data key
    return (data,.object object)
  | .remove key => do
    let (data,present) ← HashTable.remove T sh data key
    return (data,.flag present)
  | .clear => do
    let data ← initializeTable sh data
    return (data,.done)
  | .containsKey key => do
    let present ← HashTable.containsKey T sh data key
    return (data,.flag present)
  | .getOrNull key => do
    let (present,object) ← HashTable.getKeyOrNull T sh data key
    return (data,.found present object)

section Spec
variable (T : KeyTraits Key A) [DecidableEq T.Class]

/-- The same operations on the finite map from classes to the objects that are stored. -/
def spec (M : T.Class → Option (RawObject A)) :
    Op Key A → (T.Class → Option (RawObject A)) × Result A
  | .insert key =>
    let c := T.classOf (T.ofObject key)
    (Function.update M c (some ((M c).getD key)),.flag (M c).isSome)
  | .insertNewOrGet key =>
    let object := (M (T.classOf key)).getD ((T.newKey key).getD .null)
    (Function.update M (T.classOf key) (some object),.object object)
  | .remove key => (Function.update M (T.classOf key) none,.flag (M (T.classOf key)).isSome)
  | .clear => (fun _ => none,.done)
  | .containsKey key => (M,.flag (M (T.classOf key)).isSome)
  | .getOrNull key => (M,.found (M (T.classOf key)).isSome ((M (T.classOf key)).getD .null))

def Allowed (_ : T.Class → Option (RawObject A)) : Op Key A → Prop
  | .insert key => key.isKey = true
  | .insertNewOrGet key => (T.newKey key).isSome = true
  | _ => True

end Spec

lemma view_key {c : T.Class} (h : F c = some (contents sh data i)) :
    view fst F c = some (internalGetKey sh data i) := by
  rw [view,h]
  rfl

section Steps
variable {M : T.Class → Option (RawObject A)} [DecidableEq T.Class]

variable (h : Holds fst T sh N data M) (hN : sh.enumIndex = true → N < kSmiMax)
include h hN

lemma insert_or_find {key : Key} {o : RawObject A} (ho : o.isKey = true)
    (hk : T.classOf (T.ofObject o) = T.classOf key) :
    ∃ grown i, ensureCapacity T sh data = some grown ∧
      findKeyOrDeletedOrUnused T sh grown key = some (i,(M (T.classOf key)).isSome) ∧
      ((∃ x, M (T.classOf key) = some x ∧ internalGetKey sh grown i = x ∧
          Holds fst T sh (N+1) grown M) ∨
        M (T.classOf key) = none ∧ ∃ data', insertKey sh grown i o = some data' ∧
          Holds fst T sh (N+1) data' (update M (T.classOf key) (some o))) := by
  obtain ⟨n,F,hi,rfl⟩ := h
  obtain ⟨m,grown,i,present,hgrow,hfind,hinv,hcase⟩ := hi.locate (fun he => (hN he).le) key
  refine ⟨grown,i,hgrow,?_⟩
  rcases hcase with ⟨rfl,hin,hocc,hclass,hsome⟩ | ⟨rfl,habs,hv,hroom⟩
  · have hval := view_key hsome
    exact ⟨by rw [hfind,hval]; rfl,Or.inl ⟨_,hval,rfl,m,F,hinv.mono (le_succ N),rfl⟩⟩
  · have hval : view fst F (T.classOf key) = none := by rw [view,habs,map_none]
    obtain ⟨data',hins, -,hnew⟩ := hinv.insertKey ho hv hk habs hroom hN
    refine ⟨by rw [hfind,hval]; rfl,Or.inr ⟨hval,data',hins,m,_,hnew,?_⟩⟩
    rw [view_update]
    rfl

lemma insert_spec {o : RawObject A} (ho : o.isKey = true) :
    ∃ data', insert T sh data o = some (data',(M (T.classOf (T.ofObject o))).isSome) ∧
      Holds fst T sh (N+1) data' (update M (T.classOf (T.ofObject o))
        (some ((M (T.classOf (T.ofObject o))).getD o))) := by
  obtain ⟨grown,i,hgrow,hfind,hcase⟩ := insert_or_find h hN ho rfl
  unfold insert
  rw [hgrow]
  simp only [some_bind,hfind]
  rcases hcase with ⟨x,hx, -,hd⟩ | ⟨hnone,data',hins,hd⟩
  · refine ⟨grown,by simp [hx],?_⟩
    rwa [hx,getD_some,← hx,update_eq_self]
  · refine ⟨data',by simp [hnone,hins],?_⟩
    rwa [hnone]

lemma insertNewOrGet_spec {key : Key} {o : RawObject A} (ho : T.newKey key = some o) :
    ∃ data', insertNewOrGet T sh data key = some (data',(M (T.classOf key)).getD o) ∧
      Holds fst T sh (N+1) data'
        (update M (T.classOf key) (some ((M (T.classOf key)).getD o))) := by
  obtain ⟨hkey,heq⟩ := T.newKey_equiv key o ho
  obtain ⟨grown,i,hgrow,hfind,hcase⟩ :=
    insert_or_find h hN hkey (T.classOf_eq_iff.2 heq).symm
  unfold insertNewOrGet
  rw [hgrow]
  simp only [some_bind,hfind]
  rcases hcase with ⟨x,hx,hget,hd⟩ | ⟨hnone,data',hins,hd⟩
  · refine ⟨grown,by simp [hx,hget],?_⟩
    rwa [hx,getD_some,← hx,update_eq_self]
  · refine ⟨data',by simp [hnone,ho,hins],?_⟩
    rwa [hnone]

omit hN

omit h

omit [DecidableEq T.Class] in
lemma getKeyOrNull_spec (h : Holds fst T sh N data M) (key : Key) : getKeyOrNull T sh data key =
      some ((M (T.classOf key)).isSome,(M (T.classOf key)).getD .null) := by
  obtain ⟨n,F,hi,rfl⟩ := h
  obtain ⟨r,hfind,hfound⟩ := hi.findKey key
  unfold getKeyOrNull
  rw [hfind]
  cases r with
  | none =>
    have hnone : F (T.classOf key) = none := hfound
    simp [view,hnone]
  | some i => simp [view_key hfound.2.2.2]

lemma Holds.step (h : Holds fst T sh N data M) (hN : sh.enumIndex = true → N < kSmiMax)
    (op : Op Key A) (hop : Allowed T M op) : ∃ data', HashSet.step T sh data op =
      some (data',(spec T M op).2) ∧ Holds fst T sh (N+1) data' (spec T M op).1 := by
  cases op with
  | insert key =>
    obtain ⟨data',hs,hd⟩ := insert_spec h hN hop
    exact ⟨data',by simp [HashSet.step,hs,spec],hd⟩
  | insertNewOrGet key =>
    obtain ⟨o,ho⟩ := isSome_iff_exists.1 hop
    obtain ⟨data',hs,hd⟩ := insertNewOrGet_spec h hN ho
    refine ⟨data',by simp [HashSet.step,hs,spec,ho],?_⟩
    simpa [spec,ho] using hd
  | remove key =>
    obtain ⟨data',hs,hd⟩ := h.remove key
    exact ⟨data',by simp [HashSet.step,hs,spec],hd.succ⟩
  | clear =>
    obtain ⟨data',hs,hd⟩ := h.clear
    exact ⟨data',by simp [HashSet.step,hs,spec],hd.succ⟩
  | containsKey key => exact ⟨data,by simp [HashSet.step,h.containsKey,spec],h.succ⟩
  | getOrNull key => exact ⟨data,by simp [HashSet.step,getKeyOrNull_spec h,spec],h.succ⟩

end Steps

open Classical in
lemma exists_run (T : KeyTraits Key A) (enumIndex : Bool) (capacity : ℕ) (ops : List (Op Key A))
    (hlegal : Legal (Allowed T) (spec T) (fun _ => none) ops)
    (hlength : enumIndex = true → ops.length ≤ kSmiMax) :
    ∃ start data, newTable (shape enumIndex) capacity = some start ∧
      run (HashSet.step T (shape enumIndex)) start ops =
        some (data,(exec (spec T) (fun _ => none) ops).2) ∧
      Holds fst T (shape enumIndex) ops.length data (exec (spec T) (fun _ => none) ops).1 := by
  obtain ⟨start,hnew,hstart⟩ := newTable_holds fst T (shape enumIndex) capacity
  obtain ⟨data,hrun,hd⟩ := run_refines_upto (Holds fst T (shape enumIndex)) (b := ops.length)
    (fun N hN data M op hd hop => Holds.step hd (fun he => by have := hlength he; omega) op hop)
    ops hstart (Nat.zero_add _).le hlegal
  exact ⟨start,data,hnew,hrun,Nat.zero_add ops.length ▸ hd⟩

end HashSet

/-- Objects that match when they are the same. -/
def identityTraits : KeyTraits (RawObject ℕ) ℕ where
  isMatch k o := decide (k = o)
  hash
    | .ref n => n
    | _ => 0
  newKey k := if k.isKey then some k else none
  ofObject o := o
  equiv := ⊥
  isMatch_iff k o _ := by simp
  hash_eq k k' h := by
    rw [Setoid.bot_def] at h
    rw [h]
  newKey_equiv k o h := by
    rw [Option.ite_none_right_eq_some,Option.some.injEq] at h
    exact ⟨h.2 ▸ h.1,by simpa [Setoid.bot_def] using h.2⟩

/-- Growth from a single slot, a collision, an update, a removal and a new start. -/
def sampleOps : List (HashMap.Op (RawObject ℕ) ℕ) :=
  [.updateOrInsert (.ref 1) (.smi 10),.insertOrGetValue (.ref 5) (.smi 20),
   .updateValue (.ref 1) (.smi 11),.insertNewOrGetValue (.ref 9) .null,.remove (.ref 1),
   .getOrNull (.ref 5),.clear,.containsKey (.ref 9)]

variable (next : ℤ)

/-- A table of four entries after `next` insertions, whose only key was removed. -/
def tombstone : List (RawObject ℕ) :=
  [.smi 0,.smi 1,.smi next,.transitionSentinel,.transitionSentinel,.transitionSentinel] ++
    List.replicate 9 .sentinel

/-- The same table while the key is there. -/
def single : List (RawObject ℕ) :=
  [.smi 1,.smi 0,.smi (next+1),.ref 0,.null,.smi next] ++ List.replicate 9 .sentinel

def rounds : ℕ → List (HashMap.Op (RawObject ℕ) ℕ)
  | 0 => []
  | n+1 => .updateOrInsert (.ref 0) .null :: .remove (.ref 0) :: rounds n

lemma tombstone_ensureCapacity :
    ensureCapacity identityTraits (HashMap.shape true) (tombstone next) = some (tombstone next) := by
  have ho : numOccupied (tombstone next) = some 0 := rfl
  have hd : numDeleted (tombstone next) = some 1 := rfl
  have hn : numEntries (HashMap.shape true) (tombstone next) = 4 := numEntries_eq rfl
  unfold ensureCapacity ensureLoadFactor kMaxLoadFactor
  rw [ho,hd]
  simp only [some_bind,hn]
  rw [if_pos (by norm_num)]
  rfl

lemma tombstone_insert : HashMap.step identityTraits (HashMap.shape true) (tombstone next)
        (.updateOrInsert (.ref 0) .null) =
      if next+1 ≤ kSmiMax then some (single next,.flag false) else none := by
  have hfind : findKeyOrDeletedOrUnused identityTraits (HashMap.shape true) (tombstone next)
      (identityTraits.ofObject (.ref 0)) = some (0,false) := by with_unfolding_all rfl
  have hins : insertKey (HashMap.shape true) (tombstone next) 0 (.ref 0) =
      if next+1 ≤ kSmiMax then some ((single next).set 4 .transitionSentinel) else none := by
    with_unfolding_all rfl
  have hset : updatePayload (HashMap.shape true) ((single next).set 4 .transitionSentinel) 0 0 .null =
      some (single next) := by with_unfolding_all rfl
  by_cases hle : next+1 ≤ kSmiMax
  · rw [if_pos hle] at hins ⊢
    simp [HashMap.step,updateOrInsert,tombstone_ensureCapacity,hfind,hins,hset]
  · rw [if_neg hle] at hins ⊢
    simp [HashMap.step,updateOrInsert,tombstone_ensureCapacity,hfind,hins]

lemma single_remove :
    HashMap.step identityTraits (HashMap.shape true) (single next) (.remove (.ref 0)) =
      some (tombstone (next+1),.flag true) := by with_unfolding_all rfl

lemma run_rounds (n k : ℕ) (h : k+n ≤ kSmiMax) :
    ∃ rs, run (HashMap.step identityTraits (HashMap.shape true)) (tombstone k) (rounds n) =
      some (tombstone (k+n : ℕ),rs) := by
  induction n generalizing k with
  | zero => exact ⟨[],rfl⟩
  | succ n ih =>
    obtain ⟨rs,hrs⟩ := ih (k+1) (by omega)
    refine ⟨.flag false :: .flag true :: rs,?_⟩
    have hk : (k : ℤ)+1 ≤ kSmiMax := by omega
    rw [rounds,run,tombstone_insert,if_pos hk]
    simp only [some_bind,run,single_remove]
    push_cast at hrs
    rw [hrs]
    simp only [add_assoc,add_comm (1 : ℤ)]
    rfl

lemma rounds_add (m n : ℕ) : rounds (m+n) = rounds m ++ rounds n := by
  induction m with
  | zero => rw [zero_add]; rfl
  | succ m ih => rw [succ_add,rounds,ih]; rfl

lemma run_first_round : ((newTable (HashMap.shape true) 3).bind fun start =>
      run (HashMap.step identityTraits (HashMap.shape true)) start (rounds 1)) =
      some (tombstone 1,[.flag false,.flag true]) := by decide +kernel

end DartSdk.HashTable
