import DartSdk.PlatformHashMap

/-! Keys are identified up to `match_`. The invariant `Table` ties the entries to a partial map, on
which every operation is simulated. -/
namespace DartSdk.PlatformHashMap
open LinearProbing HashMap List Function

variable {K V : Type} {match_ : K → K → Bool} {hash : K → UInt32}

/-- The contract of the client's functions: matching is an equivalence that `hash` respects. -/
structure Compatible (match_ : K → K → Bool) (hash : K → UInt32) : Prop where
  refl : ∀ a, match_ a a = true
  symm : ∀ a b, match_ a b = true → match_ b a = true
  trans : ∀ a b c, match_ a b = true → match_ b c = true → match_ a c = true
  hash_eq : ∀ a b, match_ a b = true → hash a = hash b

section
variable (h : Compatible match_ hash)
include h

def Compatible.setoid : Setoid K where
  r a b := match_ a b = true
  iseqv := ⟨h.refl,@fun a b => h.symm a b,@fun a b c => h.trans a b c⟩

/-- A key up to matching. -/
def Key : Type := Quotient h.setoid

def Key.mk (k : K) : Key h := Quotient.mk h.setoid k

lemma Key.mk_eq {a b : K} : Key.mk h a = Key.mk h b ↔ match_ a b = true :=
  Quotient.eq

def home (c : ℕ) : Key h → ℕ :=
  Quotient.lift (fun k => (hash k).toNat%c) fun a b hab => by rw [h.hash_eq a b hab]

lemma home_mk (c : ℕ) (k : K) : home h c (Key.mk h k) = (hash k).toNat%c := rfl

end

namespace HashMap

variable (h : Compatible match_ hash) (m : HashMap K V)

def vacant (i : ℕ) : Bool := (m.entry i).key.isNone

def item (i : ℕ) : Option (Key h × Option V) :=
  (m.entry i).key.map fun k => (Key.mk h k,(m.entry i).value)

lemma item_eq_some {m : HashMap K V} {i : ℕ} {q : Key h} {v : Option V} : m.item h i = some (q,v) ↔
      ∃ k, (m.entry i).key = some k ∧ Key.mk h k = q ∧ (m.entry i).value = v := by
  simp [item]

lemma vacant_iff {m : HashMap K V} {i : ℕ} : m.vacant i = true ↔ m.item h i = none := by
  simp [vacant,item]

@[simp] lemma setEntry_capacity (i : ℕ) (e : Entry K V) :
    (m.setEntry i e).capacity = m.capacity := rfl

@[simp] lemma setEntry_occupancy (i : ℕ) (e : Entry K V) :
    (m.setEntry i e).occupancy = m.occupancy := rfl

@[simp] lemma setEntry_length (i : ℕ) (e : Entry K V) :
    (m.setEntry i e).map.length = m.map.length := by
  simp [setEntry]

lemma setEntry_entry {m : HashMap K V} {i : ℕ} (hi : i < m.map.length) (e : Entry K V) (j : ℕ) :
    (m.setEntry i e).entry j = if j = i then e else m.entry j := by
  unfold entry setEntry
  by_cases h : j = i
  · subst h
    simp [hi]
  · simp [getElem?_set_ne (Ne.symm h),h]

section SetOccupancy
variable (n : ℕ)

@[simp] lemma setOccupancy_map : (m.setOccupancy n).map = m.map := rfl

@[simp] lemma setOccupancy_capacity : (m.setOccupancy n).capacity = m.capacity := rfl

@[simp] lemma setOccupancy_occupancy : (m.setOccupancy n).occupancy = u32 n := rfl

@[simp] lemma setOccupancy_entry (i : ℕ) : (m.setOccupancy n).entry i = m.entry i := rfl

@[simp] lemma setOccupancy_vacant : (m.setOccupancy n).vacant = m.vacant := rfl

@[simp] lemma setOccupancy_item : (m.setOccupancy n).item h = m.item h := rfl

end SetOccupancy
end HashMap

lemma u32_eq {n : ℕ} (h : n < 2^32) : u32 n = n := Nat.mod_eq_of_lt h

lemma u32_mask {e : ℕ} (he : e ≤ 31) : u32 (2^e+(2^32-1)) = 2^e-1 := by
  have h1 : 0 < 2^e := by positivity
  have h2 : 2^e ≤ 2^31 := Nat.pow_le_pow_right (by norm_num) he
  unfold u32
  omega

lemma isPowerOfTwo_two_pow {e : ℕ} (he : e ≤ 31) : isPowerOfTwo (2^e) = true := by
  rw [isPowerOfTwo,u32_mask he,Nat.and_two_pow_sub_one_eq_mod]
  simp

lemma HashMap.start_eq {m : HashMap K V} {e : ℕ} (he : e ≤ 31) (hc : m.capacity = 2^e)
    (x : UInt32) : m.start x = x.toNat%m.capacity := by
  rw [start,hc,u32_mask he,Nat.and_two_pow_sub_one_eq_mod]

/-- The entries hold exactly the map `M`, and every key can be found by probing. -/
structure Table (h : Compatible match_ hash) (m : HashMap K V) (M : Key h → Option (Option V)) :
    Prop where
  length : m.map.length = m.capacity
  capacity : ∃ e ≤ 31, m.capacity = 2^e
  hashes : ∀ i k, (m.entry i).key = some k → (m.entry i).hash = hash k
  layout : Layout m.capacity (home h m.capacity) m.vacant (m.item h)
  represents : Represents m.capacity (m.item h) M
  occupancy : m.occupancy = size M

namespace Table
variable {h : Compatible match_ hash} {m : HashMap K V} {M : Key h → Option (Option V)}

section
variable (ht : Table h m M)
include ht

lemma capacity_pos : 0 < m.capacity := by
  obtain ⟨e, -,he⟩ := ht.capacity
  rw [he]
  positivity

lemma capacity_le : m.capacity ≤ 2^31 := by
  obtain ⟨e,he,hc⟩ := ht.capacity
  rw [hc]
  exact Nat.pow_le_pow_right (by norm_num) he

lemma start_eq (x : UInt32) : m.start x = x.toNat%m.capacity := by
  obtain ⟨e,he,hc⟩ := ht.capacity
  exact HashMap.start_eq he hc x

lemma start_hash (k : K) : m.start (hash k) = home h m.capacity (Key.mk h k) := by
  rw [ht.start_eq,home_mk]

lemma occupancy_eq : m.occupancy = countSlots m.capacity fun i => (m.item h i).isSome :=
  ht.occupancy.trans (ht.layout.size_eq ht.represents)

/-- A table that is not full has a vacant entry, so probing ends. -/
lemma exists_vacant (hocc : m.occupancy < m.capacity) : ∃ i < m.capacity, m.vacant i = true := by
  rw [ht.occupancy_eq] at hocc
  obtain ⟨i,hi,hv⟩ := exists_not_of_count_lt hocc
  exact ⟨i,hi,(vacant_iff h).2 (by simpa using hv)⟩

lemma stops_iff (k : K) (i : ℕ) : m.stops match_ k (hash k) i = true ↔
      m.vacant i = true ∨ ∃ v, m.item h i = some (Key.mk h k,v) := by
  unfold stops vacant
  cases hk : (m.entry i).key with
  | none => simp
  | some k' =>
    have hh := ht.hashes i k' hk
    simp only [item_eq_some,hk,hh]
    constructor
    · intro hs
      have hm : match_ k k' = true := by simpa using (by simpa using hs : _ ∧ _).2
      exact Or.inr ⟨_,k',rfl,((Key.mk_eq h).2 hm).symm,rfl⟩
    · rintro (hn | ⟨v,k'',hk',hkk, -⟩)
      · simp at hn
      · cases hk'
        have hm := (Key.mk_eq h).1 hkk.symm
        simp [hm,h.hash_eq _ _ hm]

/-- `Probe` finds the entry of a present key, and a vacant entry for an absent one. -/
lemma probe_spec (hocc : m.occupancy < m.capacity) (k : K) :
    ∃ i d, d < m.capacity ∧ (home h m.capacity (Key.mk h k)+d)%m.capacity = i ∧
      i < m.capacity ∧ m.probe match_ k (hash k) = some i ∧
      (∀ j < d, m.vacant ((home h m.capacity (Key.mk h k)+j)%m.capacity) = false) ∧
      ((∃ v, m.item h i = some (Key.mk h k,v) ∧ M (Key.mk h k) = some v) ∨
        m.vacant i = true ∧ M (Key.mk h k) = none) := by
  obtain ⟨e,he,hc⟩ := ht.capacity
  obtain ⟨d,hd,hs,hpath,hend⟩ := ht.layout.find ht.represents (ht.exists_vacant hocc)
    (Key.mk h k) fun i _ => ht.stops_iff k i
  refine ⟨_,d,hd,rfl,Nat.mod_lt _ ht.capacity_pos,?_,hpath,hend⟩
  have hpow : isPowerOfTwo m.capacity = true := hc ▸ isPowerOfTwo_two_pow he
  have hstart : m.start (hash k) < m.capacity := by
    rw [ht.start_hash]
    exact ht.layout.home_lt _
  rw [probe,if_pos (by simp [hpow,hstart,hocc]),ht.start_hash,hs]

lemma entry_setEntry {i : ℕ} (hi : i < m.capacity) (e : Entry K V) (j : ℕ) :
    (m.setEntry i e).entry j = if j = i then e else m.entry j :=
  setEntry_entry (by rwa [ht.length]) e j

lemma finite : {q | M q ≠ none}.Finite := ht.represents.finite

end

open Classical in
lemma insert (ht : Table h m M) {k : K} (hk : M (Key.mk h k) = none) {d : ℕ} (hd : d < m.capacity)
    (hpath : ∀ j < d, m.vacant ((home h m.capacity (Key.mk h k)+j)%m.capacity) = false)
    {i : ℕ} (hi : (home h m.capacity (Key.mk h k)+d)%m.capacity = i)
    (hvac : m.vacant i = true) (hocc : m.occupancy < m.capacity) :
    Table h ((m.setEntry i ⟨some k,none,hash k⟩).setOccupancy (m.occupancy+1))
      (update M (Key.mk h k) (some none)) := by
  have hic : i < m.capacity := hi ▸ Nat.mod_lt _ ht.capacity_pos
  have habs := (ht.represents.absent_iff _).1 hk
  have hentry := ht.entry_setEntry hic ⟨some k,none,hash k⟩
  have hitem : ∀ j < m.capacity, (m.setEntry i ⟨some k,none,hash k⟩).item h j =
      if j = i then some (Key.mk h k,none) else m.item h j := by
    intro j _
    simp only [item,hentry]
    split_ifs <;> rfl
  have hcap := ht.capacity_le
  refine ⟨by simp [ht.length],ht.capacity,?_,?_,?_,?_⟩
  · intro j k' hk'
    rw [setOccupancy_entry,hentry] at hk' ⊢
    split_ifs at hk' ⊢
    · cases hk'
      rfl
    · exact ht.hashes j k' hk'
  · refine ht.layout.insert hd hi hpath habs ?_ hitem
    intro j _ hv
    rw [setOccupancy_vacant,vacant,hentry] at hv
    split_ifs at hv with hji
    · simp at hv
    · exact ⟨hji,hv⟩
  · refine ht.represents.set hic (fun j hj _ => habs j hj) ?_ hitem
    intro q w hw
    simp [(vacant_iff h).1 hvac] at hw
  · rw [size_update_absent ht.finite hk,← ht.occupancy]
    exact u32_eq (by omega)

open Classical in
lemma setValue (ht : Table h m M) {i : ℕ} (hi : i < m.capacity) {q : Key h} {v : Option V}
    (hq : m.item h i = some (q,v)) (w : Option V) :
    Table h (m.setValue i w) (update M q (some w)) := by
  have hentry := ht.entry_setEntry hi { m.entry i with value := w }
  obtain ⟨k,hk,hkq, -⟩ := (item_eq_some h).1 hq
  have hitem : ∀ j < m.capacity, (m.setValue i w).item h j =
      if j = i then some (q,w) else m.item h j := by
    intro j _
    simp only [item,HashMap.setValue,hentry]
    split_ifs
    · simp [hk,hkq]
    · rfl
  have hkey : ∀ j, ((m.setValue i w).entry j).key = (m.entry j).key ∧
      ((m.setValue i w).entry j).hash = (m.entry j).hash := by
    intro j
    simp only [HashMap.setValue,hentry]
    split_ifs with hj
    · rw [hj]
      exact ⟨rfl,rfl⟩
    · exact ⟨rfl,rfl⟩
  refine ⟨by simp [HashMap.setValue,ht.length],ht.capacity,?_,?_,?_,?_⟩
  · intro j k' hk'
    rw [(hkey j).1] at hk'
    rw [(hkey j).2]
    exact ht.hashes j k' hk'
  · refine ht.layout.mono (fun j _ hv => ?_) fun j hj q' x hx => ?_
    · rwa [vacant,(hkey j).1] at hv
    · change (m.setValue i w).item h j = some (q',x) at hx
      rw [hitem j hj] at hx
      split_ifs at hx with hji
      · cases hx
        exact ⟨v,hji ▸ hq⟩
      · exact ⟨x,hx⟩
  · refine ht.represents.set hi ?_ ?_ hitem
    · intro j hj hji x hx
      exact hji (ht.layout.unique j hj i hi q x v hx hq)
    · intro q' x hx
      rw [hq] at hx
      cases hx
      rfl
  · rw [size_update_present,← ht.occupancy]
    · rfl
    · rw [(ht.represents q v).2 ⟨i,hi,hq⟩]
      simp

end Table

lemma clear_key (m : HashMap K V) (i : ℕ) : (m.clear.entry i).key = none := by
  unfold entry clear
  rw [getD_eq_getElem?_getD,getElem?_map]
  cases m.map[i]? <;> rfl

variable (h : Compatible match_ hash)

lemma clear_spec {m : HashMap K V} (hlen : m.map.length = m.capacity)
    (hcap : ∃ e ≤ 31, m.capacity = 2^e) : Table h m.clear fun _ => none := by
  have hitem : ∀ i < m.clear.capacity, m.clear.item h i = none := by
    intro i _
    simp [item,clear_key]
  have hpos : 0 < m.capacity := by
    obtain ⟨e, -,he⟩ := hcap
    rw [he]
    positivity
  refine ⟨by simp [clear,hlen],hcap,?_,.empty ?_ hitem,.empty hitem,size_empty.symm⟩
  · intro i k hk
    simp [clear_key] at hk
  · intro q
    induction q using Quotient.inductionOn with
    | h k => exact Nat.mod_lt _ hpos

lemma initializeMap_spec {e : ℕ} (he : e ≤ 31) : ∃ m : HashMap K V,
      initializeMap (2^e) = some m ∧ m.capacity = 2^e ∧ Table h m fun _ => none := by
  refine ⟨_,by rw [initializeMap,if_pos (isPowerOfTwo_two_pow he)],rfl,?_⟩
  exact clear_spec h (by simp) ⟨e,he,rfl⟩

section Lookup
variable {h : Compatible match_ hash} {m : HashMap K V} {M : Key h → Option (Option V)}

variable {g : HashMap K V → Option (HashMap K V)}

variable (ht : Table h m M) (hocc : m.occupancy < m.capacity)
include ht hocc

lemma lookupWith_present {k : K} {v : Option V}
    (hk : M (Key.mk h k) = some v) (insert : Bool) : ∃ i < m.capacity, m.item h i =
      some (Key.mk h k,v) ∧ lookupWith match_ g m k (hash k) insert = some (m,some i) := by
  obtain ⟨i,d, -, -,hi,hp, -,⟨w,hw,hM⟩ | ⟨-,hM⟩⟩ := ht.probe_spec hocc k
  · obtain rfl : w = v := by simpa [hM] using hk
    obtain ⟨k',hk', -⟩ := (item_eq_some h).1 hw
    exact ⟨i,hi,hw,by simp [lookupWith,hp,hk']⟩
  · simp [hM] at hk

lemma lookupWith_absent {k : K}
    (hk : M (Key.mk h k) = none) : lookupWith match_ g m k (hash k) false = some (m,none) := by
  obtain ⟨i,d, -, -, -,hp, -,⟨w,hw,hM⟩ | ⟨hv, -⟩⟩ := ht.probe_spec hocc k
  · simp [hM] at hk
  · have hn : (m.entry i).key = none := by simpa [vacant] using hv
    simp [lookupWith,hp,hn]

open Classical in
lemma lookupWith_insert {k : K} (hk : M (Key.mk h k) = none) :
    ∃ m' i, Table h m' (update M (Key.mk h k) (some none)) ∧
      m'.capacity = m.capacity ∧ i < m.capacity ∧ m'.item h i = some (Key.mk h k,none) ∧
      lookupWith match_ g m k (hash k) true =
        if m'.occupancy+m'.occupancy/4 ≥ m'.capacity then do
          let m ← g m'
          let p ← m.probe match_ k (hash k)
          return (m,some p)
        else some (m',some i) := by
  obtain ⟨i,d,hd,hid,hi,hp,hpath,⟨w,hw,hM⟩ | ⟨hv, -⟩⟩ := ht.probe_spec hocc k
  · simp [hM] at hk
  have hn : (m.entry i).key = none := by simpa [vacant] using hv
  refine ⟨_,i,ht.insert hk hd hpath hid hv hocc,rfl,hi,?_,?_⟩
  · simp [item,ht.entry_setEntry hi]
  · have hle := ht.capacity_le
    have hload : u32 (u32 (m.occupancy+1)+u32 (m.occupancy+1)/4) =
        u32 (m.occupancy+1)+u32 (m.occupancy+1)/4 := by
      rw [u32_eq (n := m.occupancy+1) (by omega),u32_eq (by omega)]
    simp [lookupWith,hp,hn,insertAt,hload]

omit hocc

/-- One iteration of `Resize` that moves an entry. -/
def rehashStep (f : HashMap K V → K → UInt32 → Option (HashMap K V × Option ℕ)) (m : HashMap K V)
    (x : K × Option V × UInt32) : Option (HashMap K V) := do
  let (m,q) ← f m x.1 x.2.2
  let q ← q
  return m.setValue q x.2.1

def entries (ps : List (Entry K V)) : List (K × Option V × UInt32) :=
  ps.filterMap fun p => p.key.map fun k => (k,p.value,p.hash)

omit ht in
lemma rehash_eq_foldlM (f : HashMap K V → K → UInt32 → Option (HashMap K V × Option ℕ))
    (ps : List (Entry K V)) : ∀ m : HashMap K V,
      rehash f ps (entries ps).length m = (entries ps).foldlM (rehashStep f) m := by
  induction ps with
  | nil => exact fun _ => rfl
  | cons p ps ih =>
    intro m
    cases hp : p.key with
    | none =>
      have he : entries (p :: ps) = entries ps := by simp [entries,hp]
      rw [he,← ih m]
      cases h : (entries ps).length with
      | zero => cases ps <;> rfl
      | succ n => rw [rehash,hp]
    | some k =>
      have he : entries (p :: ps) = (k,p.value,p.hash) :: entries ps := by simp [entries,hp]
      rw [he,length_cons,rehash,hp,foldlM_cons]
      cases hf : f m k p.hash with
      | none => simp [rehashStep,hf]
      | some x =>
        cases hq : x.2 with
        | none => simp [rehashStep,hf,hq]
        | some q => simp [rehashStep,hf,hq,ih]

lemma Table.lists_entries :
    Lists (fun x : K × Option V × UInt32 => Key.mk h x.1) (fun x => x.2.1) (entries m.map) M ∧
      (entries m.map).length = m.occupancy := by
  rw [ht.occupancy]
  refine Layout.lists (e := .empty) (ht.length ▸ ht.layout) (ht.length ▸ ht.represents) ?_
  intro i _
  simp [item,entry,comp_def]

/-- Doubling keeps the contents. Nested lookups find room, so they do not grow again. -/
lemma resize_spec (hocc : m.occupancy ≤ m.capacity)
    (hcap : m.capacity < 2^31) : ∃ m', resize (fun m k x => lookupWith match_ g m k x true) m =
      some m' ∧ m'.capacity = m.capacity*2 ∧ Table h m' M := by
  classical
  obtain ⟨e,he,hc⟩ := ht.capacity
  have he' : e+1 ≤ 31 := by
    rw [hc] at hcap
    exact (Nat.pow_lt_pow_iff_right (by norm_num)).1 hcap
  obtain ⟨m₀,hm₀,hc₀,ht₀⟩ := initializeMap_spec h he'
  have hdouble : 2^(e+1) = m.capacity*2 := by rw [hc,pow_succ]
  have hhash : ∀ x ∈ entries m.map, x.2.2 = hash x.1 := by
    intro x hx
    obtain ⟨p,hp,hpx⟩ := mem_filterMap.1 hx
    obtain ⟨i,hi,rfl⟩ := mem_iff_getElem.1 hp
    obtain ⟨k,hk,rfl⟩ := Option.map_eq_some_iff.1 hpx
    simpa [entry,hi] using ht.hashes i k (by simpa [entry,hi] using hk)
  obtain ⟨hlists,hlen⟩ := ht.lists_entries
  obtain ⟨m',hm',ht',hc'⟩ := rebuild
    (f := rehashStep fun m k x => lookupWith match_ g m k x true)
    (fun t M => Table h t M ∧ t.capacity = m.capacity*2) ⟨ht₀,hc₀.trans hdouble⟩ (by
      rintro t M ⟨k,v,x⟩ hx ⟨ht,hct⟩ hk hroom
      obtain rfl : x = hash k := hhash _ hx
      have hpos := ht.occupancy
      obtain ⟨t₁,i,ht₁,hc₁,hi,hit,hl⟩ := lookupWith_insert (g := g) ht (by omega) hk
      have hocc₁ : t₁.occupancy = size M+1 := by
        rw [ht₁.occupancy,size_update_absent ht.finite hk]
      rw [if_neg (by omega)] at hl
      have ht₂ := ht₁.setValue (hc₁ ▸ hi) hit v
      rw [update_idem] at ht₂
      exact ⟨t₁.setValue i v,by simp [rehashStep,hl],ht₂,hc₁.trans hct⟩)
    hlists hlen.le
  refine ⟨m',?_,hc',ht'⟩
  rw [resize,u32_eq (by omega),← hdouble,hm₀,← hlen]
  simpa [rehash_eq_foldlM] using hm'

end Lookup

/-- The invariant between operations: besides holding `M`, the table is at most four fifths
full. The capacity never drops below its initial value `c₀`. -/
structure Refines (h : Compatible match_ hash) (c₀ : ℕ) (m : HashMap K V)
    (M : Key h → Option (Option V)) : Prop extends Table h m M where
  lower : c₀ ≤ m.capacity
  load : m.occupancy+m.occupancy/4 < m.capacity

section Operations
variable {h : Compatible match_ hash} {c₀ : ℕ} {m : HashMap K V} {M : Key h → Option (Option V)}

lemma Refines.not_full (hr : Refines h c₀ m M) : m.occupancy < m.capacity := by
  have := hr.load
  omega

open Classical in
lemma lookup_insert (hr : Refines h c₀ m M) {k : K} (hk : M (Key.mk h k) = none)
    (hfit : size M+1+(size M+1)/4 < 2^31) : ∃ m' i, lookup match_ m k (hash k) true =
      some (m',some i) ∧ Refines h c₀ m' (update M (Key.mk h k) (some none)) ∧ i <
      m'.capacity ∧ m'.item h i = some (Key.mk h k,none) := by
  obtain ⟨m₁,i,ht₁,hc₁,hi,hit,hl⟩ := lookupWith_insert
    (g := resize fun m key x => lookupFuel match_ 31 m key x true) hr.toTable hr.not_full hk
  have hocc : m₁.occupancy = m.occupancy+1 := by
    rw [ht₁.occupancy,size_update_absent hr.finite hk,hr.occupancy]
  have hfull := hr.not_full
  have hlower := hr.lower
  split_ifs at hl with hgrow
  · obtain ⟨m₂,hm₂,hc₂,ht₂⟩ := resize_spec
      (g := resize fun m key x => lookupFuel match_ 30 m key x true) ht₁ (by omega)
      (by rw [← hr.occupancy] at hfit; omega)
    obtain ⟨j, -, -, -,hj,hp, -,⟨w,hw,hM⟩ | ⟨-,hM⟩⟩ := ht₂.probe_spec (k := k) (by
      rw [ht₂.occupancy,← ht₁.occupancy]
      omega)
    · rw [update_self] at hM
      cases hM
      refine ⟨m₂,j,?_,⟨ht₂,by omega,?_⟩,hj,hw⟩
      · refine hl.trans ?_
        change (resize (fun m k x => lookupWith match_ _ m k x true) m₁).bind _ = _
        rw [hm₂]
        simp [hp]
      · rw [ht₂.occupancy,← ht₁.occupancy]
        omega
    · simp at hM
  · exact ⟨m₁,i,hl,⟨ht₁,by omega,by omega⟩,by omega,hit⟩

/-- At the largest 32-bit power of two the doubled capacity wraps to zero, which
`Initialize` rejects. -/
lemma lookup_overflow (hr : Refines h (2^31) m M) {k : K} (hk : M (Key.mk h k) = none)
    (hfull : 2^31 ≤ size M+1+(size M+1)/4) : lookup match_ m k (hash k) true = none := by
  classical
  obtain ⟨m₁,i,ht₁,hc₁, -, -,hl⟩ := lookupWith_insert
    hr.toTable hr.not_full hk
  have hcap : m₁.capacity = 2^31 := by
    have := hr.lower
    have := hr.capacity_le
    omega
  have hocc : m₁.occupancy = size M+1 := by
    rw [ht₁.occupancy,size_update_absent hr.finite hk]
  refine hl.trans ?_
  rw [if_pos (by omega),resize,hcap]
  rfl

end Operations

end DartSdk.PlatformHashMap
