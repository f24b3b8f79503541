import DartSdk.CompactHashIndex

/-! Searching, appending, overwriting and deleting, by what they do to the list of the entries. Keys
are identified up to `==`. -/
namespace DartSdk.CompactHash
open LinearProbing List Nat Kind

variable {K V : Type} {equals : K → K → Bool} {hashCode : K → ℤ}

/-- The contract of `==` and `hashCode`. -/
structure Consistent (equals : K → K → Bool) (hashCode : K → ℤ) : Prop where
  refl : ∀ a, equals a a = true
  symm : ∀ a b, equals a b = true → equals b a = true
  trans : ∀ a b c, equals a b = true → equals b c = true → equals a c = true
  hash_eq : ∀ a b, equals a b = true → hashCode a = hashCode b

section
variable (h : Consistent equals hashCode)
include h

def Consistent.setoid : Setoid K where
  r a b := equals a b = true
  iseqv := ⟨h.refl,@fun a b => h.symm a b,@fun a b c => h.trans a b c⟩

/-- A key up to equality. -/
def Key : Type := Quotient h.setoid

def Key.mk (k : K) : Key h := Quotient.mk h.setoid k

lemma Key.mk_eq {a b : K} : Key.mk h a = Key.mk h b ↔ equals a b = true :=
  Quotient.eq

def home (c : ℕ) : Key h → ℕ :=
  Quotient.lift (fun k => firstProbe (hashCode k) (c-1)) fun a b hab => by rw [h.hash_eq a b hab]

lemma home_mk (c : ℕ) (k : K) : home h c (Key.mk h k) = firstProbe (hashCode k) (c-1) := rfl

end

/-- The part of `_data` that holds an entry. -/
def cells : Option (K × V) → Kind V → List (Cell K V)
  | some (k,v), .map => [.key k,.value v]
  | none, .map => [.deleted,.deleted]
  | some (k,_), .set => [.key k]
  | none, .set => [.deleted]

def Holds (kind : Kind V) (data : List (Cell K V)) (n : ℕ) (o : Option (K × V)) : Prop :=
  ∀ j < kind.step, data[n*kind.step+j]? = (cells o kind)[j]?

variable {kind : Kind V}

lemma Holds.getElem {data : List (Cell K V)} {n : ℕ} {k : K} {v : V}
    (h : Holds kind data n (some (k,v))) : data[n*kind.step]? = some (.key k) := by
  have := h 0 kind.step_pos
  cases kind <;> simpa [cells] using this

lemma Holds.keyAt {data : List (Cell K V)} {n : ℕ} {k : K} {v : V}
    (h : Holds kind data n (some (k,v))) : keyAt data (n*kind.step) = some k := by
  rw [CompactHash.keyAt,h.getElem]

lemma Holds.storedValue {data : List (Cell K V)} {n : ℕ} {k : K} {v : V}
    (h : Holds kind data n (some (k,v))) : storedValue data (n*kind.step) kind = some v := by
  cases kind with
  | map =>
    have := h 1 (by simp [step])
    simp only [step,cells] at this
    simp [CompactHash.storedValue,valueAt,step,this]
  | set => rfl

lemma Holds.deleted {data : List (Cell K V)} {n : ℕ} (h : Holds kind data n none) :
    data[n*kind.step]? = some .deleted := by
  have := h 0 kind.step_pos
  cases kind <;> simpa [cells] using this

/-- `data'` is `data` with entry `n` replaced by `o`. -/
structure Writes (kind : Kind V) (data : List (Cell K V)) (n : ℕ) (o : Option (K × V))
    (data' : List (Cell K V)) : Prop where
  length : data'.length = data.length
  self : Holds kind data' n o
  other : ∀ m o', m ≠ n → Holds kind data m o' → Holds kind data' m o'

lemma assign_eq {α : Type} {l : List α} {i : ℕ} (hi : i < l.length) (a : α) :
    assign l i a = some (l.set i a) := if_pos hi

lemma place_ne {s n m i j : ℕ} (hi : i < s) (hj : j < s) (hne : m ≠ n) : n*s+i ≠ m*s+j := by
  intro he
  have h := congrArg (·/s) he
  simp only [mul_comm _ s,mul_add_div (by omega : 0 < s),div_eq_of_lt hi,div_eq_of_lt hj] at h
  omega

section Writes
variable {data : List (Cell K V)} {n : ℕ}

lemma writes_map {c₀ c₁ : Cell K V} {o : Option (K × V)} (hlen : (n+1)*2 ≤ data.length)
    (ho : cells o .map = [c₀,c₁]) : Writes .map data n o ((data.set (n*2) c₀).set (n*2+1) c₁) := by
  refine ⟨by simp,?_,?_⟩
  · intro j hj
    simp only [step] at hj ⊢
    obtain rfl | rfl : j = 0 ∨ j = 1 := by omega
    · simp only [ho,add_zero]
      rw [getElem?_set_ne (by omega),getElem?_set_self (by omega)]
      rfl
    · rw [ho,getElem?_set_self (by simp; omega)]
      rfl
  · intro m o' hm h j hj
    simp only [step] at hj ⊢
    rw [getElem?_set_ne (place_ne (by omega) hj hm),
      getElem?_set_ne (by simpa using place_ne (i := 0) (by omega) hj hm)]
    exact h j hj

lemma writes_set {data : List (Cell K Unit)} {c₀ : Cell K Unit} {o : Option (K × Unit)}
    (hlen : n < data.length) (ho : cells o .set = [c₀]) : Writes .set data n o (data.set n c₀) := by
  refine ⟨by simp,?_,?_⟩
  · intro j hj
    obtain rfl : j = 0 := by simpa [step] using hj
    simp [ho,step,hlen]
  · intro m o' hm h j hj
    obtain rfl : j = 0 := by simpa [step] using hj
    have := h 0 hj
    simp only [step,mul_one,add_zero] at this ⊢
    rw [getElem?_set_ne (Ne.symm hm),this]

lemma appendCells_spec (hlen : (n+1)*kind.step ≤ data.length) (key : K) (value : V) :
    ∃ data', appendCells data (n*kind.step) key value kind = some data' ∧
      Writes kind data n (some (key,value)) data' := by
  cases kind with
  | map =>
    simp only [step] at hlen
    refine ⟨_,?_,writes_map hlen rfl⟩
    simp [appendCells,step,assign_eq (show n*2 < data.length by omega),
      assign_eq (show n*2+1 < (data.set (n*2) (.key key)).length by simp; omega)]
  | set =>
    simp only [step] at hlen
    exact ⟨_,by simp [appendCells,step,assign_eq (show n < data.length by omega)],
      writes_set (by omega) rfl⟩

lemma setDeleted_spec (hlen : (n+1)*kind.step ≤ data.length) :
    ∃ data', setDeleted data (n*kind.step) kind = some data' ∧ Writes kind data n none data' := by
  cases kind with
  | map =>
    simp only [step] at hlen
    refine ⟨_,?_,writes_map hlen rfl⟩
    simp [setDeleted,step,assign_eq (show n*2 < data.length by omega),
      assign_eq (show n*2+1 < (data.set (n*2) .deleted).length by simp; omega)]
  | set =>
    simp only [step] at hlen
    exact ⟨_,by simp [setDeleted,step,assign_eq (show n < data.length by omega)],
      writes_set (by omega) rfl⟩

lemma overwrite_spec {t : Table K V} {k : K} {v : V} (hlen : (n+1)*kind.step ≤ t.data.length)
    (h : Holds kind t.data n (some (k,v))) (value : V) :
    ∃ data', overwrite t n value kind = some { t with data := data' } ∧
      Writes kind t.data n (some (k,value)) data' := by
  cases kind with
  | map =>
    simp only [step] at hlen
    have hself : t.data.set (n*2) (.key k) = t.data := by
      refine ext_getElem? fun j => ?_
      by_cases hj : j = n*2
      · rw [hj,getElem?_set_self (by omega)]
        exact h.getElem.symm
      · rw [getElem?_set_ne (Ne.symm hj)]
    have hw := writes_map (o := some (k,value)) hlen rfl
    rw [hself] at hw
    refine ⟨_,?_,hw⟩
    simp [overwrite,shiftLeft_eq,assign_eq (show n*2+1 < t.data.length by omega)]
  | set => exact ⟨t.data,rfl,rfl,h,fun _ _ _ h' => h'⟩

end Writes

/-- What does not depend on the contents. There are `2 ^ b` places for entries. -/
structure Shape (kind : Kind V) (t : Table K V) (b : ℕ) : Prop where
  pos : 0 < b
  le : b ≤ 31
  size : t.index.length = 2^(b+1)
  mask : ∃ k, t.hashMask = 2^k-1 ∧ k+b ≤ 32
  data : t.data.length = 2^b*kind.step

/-- The entry that slot `i` refers to. -/
def item (h : Consistent equals hashCode) (t : Table K V) (b : ℕ) (es : List (Option (K × V)))
    (i : ℕ) : Option (Key h × ℕ) :=
  if t.pair i ≤ 1 then none
  else (es[t.pair i%2^b]?.join).map fun p => (Key.mk h p.1,t.pair i%2^b)

structure Inv (h : Consistent equals hashCode) (kind : Kind V) (t : Table K V) (b : ℕ)
    (es : List (Option (K × V))) : Prop extends Shape kind t b where
  used : t.usedData = es.length*kind.step
  fits : es.length ≤ 2^b
  deleted : t.deletedKeys = es.countP (·.isNone)
  holds : ∀ n o, es[n]? = some o → Holds kind t.data n o
  pairs : ∀ i < 2^(b+1), 1 < t.pair i →
    ∃ n k v, es[n]? = some (some (k,v)) ∧ t.pair i = t.pattern hashCode k+n
  layout : Layout (2^(b+1)) (home h (2^(b+1))) t.free (item h t b es)
  indexed : ∀ n k v, es[n]? = some (some (k,v)) →
    ∃ i < 2^(b+1), item h t b es i = some (Key.mk h k,n)
  count : countSlots (2^(b+1)) (fun i => !t.free i) ≤ es.length

namespace Shape
variable {t : Table K V} {b : ℕ}

variable (hs : Shape kind t b)
include hs

lemma half : t.index.length >>> 1 = 2^b := by
  rw [hs.size,shiftRight_eq_div_pow,pow_succ]
  simp

lemma pattern_eq (hashCode : K → ℤ) (key : K) :
    ∃ q, 0 < q ∧ t.pattern hashCode key = q*2^b ∧ (q+1)*2^b ≤ 2^32 := by
  obtain ⟨k,hk,hle⟩ := hs.mask
  rw [Table.pattern,hs.size,hk]
  exact hashPattern_eq hs.le hle _

lemma two_le : 2 ≤ 2^b := by
  calc 2 = 2^1 := rfl
    _ ≤ 2^b := Nat.pow_le_pow_right (by norm_num) hs.pos

lemma one_lt_pattern (hashCode : K → ℤ) (key : K) : 1 < t.pattern hashCode key := by
  obtain ⟨q,hq,he, -⟩ := hs.pattern_eq hashCode key
  have := hs.two_le
  rw [he]
  nlinarith

end Shape

/-- The slot at distance `d` from the home of `key`. -/
abbrev slot (h : Consistent equals hashCode) (b : ℕ) (key : K) (d : ℕ) : ℕ :=
  (home h (2^(b+1)) (Key.mk h key)+d)%2^(b+1)

/-- No entry has a key that equals `key`. -/
def Absent (equals : K → K → Bool) (es : List (Option (K × V))) (key : K) : Prop :=
  ∀ (n : ℕ) k v, es[n]? = some (some (k,v)) → equals key k = false

namespace Inv
variable {h : Consistent equals hashCode} {t : Table K V} {b : ℕ} {es : List (Option (K × V))}

section
variable (hi : Inv h kind t b es)
include hi

lemma lt_of_getElem {n : ℕ} {o : Option (K × V)} (hn : es[n]? = some o) : n < 2^b := by
  have h1 : n < es.length := (List.getElem?_eq_some_iff.1 hn).1
  have h2 := hi.fits
  omega

lemma pair_mod {i n : ℕ} {k : K} {v : V} (hn : es[n]? = some (some (k,v)))
    (he : t.pair i = t.pattern hashCode k+n) : t.pair i%2^b = n := by
  obtain ⟨q, -,hq, -⟩ := hi.pattern_eq hashCode k
  rw [he,hq,mul_add_mod_self_right,mod_eq_of_lt (hi.lt_of_getElem hn)]

lemma item_eq_some {i : ℕ} (hlt : i < 2^(b+1)) {q : Key h} {n : ℕ} :
    item h t b es i = some (q,n) ↔ 1 < t.pair i ∧
      ∃ k v, es[n]? = some (some (k,v)) ∧ Key.mk h k = q ∧ t.pair i = t.pattern hashCode k+n := by
  unfold item
  by_cases hp : t.pair i ≤ 1
  · simp [hp]
  rw [if_neg hp]
  obtain ⟨m,k,v,hm,hpair⟩ := hi.pairs i hlt (by omega)
  have hmod := hi.pair_mod hm hpair
  rw [hmod,hm]
  constructor
  · intro he
    obtain ⟨rfl,rfl⟩ : Key.mk h k = q ∧ m = n := by simpa using he
    exact ⟨by omega,k,v,hm,rfl,hpair⟩
  · rintro ⟨-,k',v',hn,rfl,hpair'⟩
    have hmn : m = n := hmod.symm.trans (hi.pair_mod hn hpair')
    subst hmn
    rw [hm] at hn
    cases hn
    simp

lemma distinct {n m : ℕ} {k k' : K} {v v' : V} (hn : es[n]? = some (some (k,v)))
    (hm : es[m]? = some (some (k',v'))) (he : equals k k' = true) : n = m := by
  obtain ⟨i,hlt,hit⟩ := hi.indexed n k v hn
  obtain ⟨j,hjt,hjm⟩ := hi.indexed m k' v' hm
  rw [← (Key.mk_eq h).2 he] at hjm
  obtain rfl := hi.layout.unique i hlt j hjt _ _ _ hit hjm
  rw [hit] at hjm
  simpa using hjm

lemma exists_free : ∃ i < 2^(b+1), t.free i = true := by
  have h1 := hi.count
  have h2 := hi.fits
  have h4 := hi.two_le
  obtain ⟨j,hj,hf⟩ := exists_not_of_count_lt (show countSlots (2^(b+1)) (fun i => !t.free i) <
    2^(b+1) by omega)
  exact ⟨j,hj,by simpa using hf⟩

lemma stops {i n : ℕ} (hlt : i < 2^(b+1)) {key : K}
    (hit : item h t b es i = some (Key.mk h key,n)) :
    t.Stops equals kind key (t.pattern hashCode key) i n := by
  obtain ⟨h1,k,v,hn,hk,hpair⟩ := (hi.item_eq_some hlt).1 hit
  have heq := h.symm _ _ ((Key.mk_eq h).1 hk)
  have hpat : t.pattern hashCode k = t.pattern hashCode key := by
    rw [Table.pattern,Table.pattern,h.hash_eq _ _ heq]
  obtain ⟨q, -,hq, -⟩ := hi.pattern_eq hashCode key
  have hlt' := hi.lt_of_getElem hn
  refine ⟨h1,?_,by rw [hi.half]; exact hlt',k,?_,heq⟩
  · rw [hpair,hpat,hq,xor_self_add hlt']
  · rw [kind.shift_eq,(hi.holds n _ hn).keyAt]

lemma passes {i : ℕ} (hlt : i < 2^(b+1)) {key : K}
    (hf : t.free i = false) (hit : ∀ n, item h t b es i ≠ some (Key.mk h key,n)) :
    t.Passes equals kind key (t.pattern hashCode key) i := by
  by_cases hp : t.pair i ≤ 1
  · have h0 : t.pair i ≠ 0 := by simpa [Table.free,kUnusedPair] using hf
    exact Or.inl (by simp only [kDeletedPair]; omega)
  obtain ⟨n,k,v,hn,hpair⟩ := hi.pairs i hlt (by omega)
  obtain ⟨q, -,hq, -⟩ := hi.pattern_eq hashCode key
  obtain ⟨p, -,hp', -⟩ := hi.pattern_eq hashCode k
  have hltn := hi.lt_of_getElem hn
  refine Or.inr ⟨by omega,fun hx => ⟨k,?_⟩⟩
  rw [hi.half,hpair,hq,hp',xor_lt_iff hltn] at hx
  rw [hpair,hq,hp',hx,xor_self_add hltn,kind.shift_eq,(hi.holds n _ hn).keyAt]
  refine ⟨rfl,?_⟩
  by_contra hne
  refine hit n ((hi.item_eq_some hlt).2 ⟨by omega,k,v,hn,(Key.mk_eq h).2 ?_,hpair⟩)
  exact h.symm _ _ (by simpa using hne)

lemma find_spec (key : K) :
    (∃ i n k v, find equals hashCode kind t key = some (.found i n) ∧ i < 2^(b+1) ∧
      item h t b es i = some (Key.mk h key,n) ∧ es[n]? = some (some (k,v)) ∧ equals key k = true) ∨
    (∃ d < 2^(b+1), find equals hashCode kind t key = some (.absent (slot h b key d)) ∧
      (∀ j < d, t.free (slot h b key j) = false) ∧ t.pair (slot h b key d) ≤ 1 ∧
      (∀ i < 2^(b+1), ∀ n, item h t b es i ≠ some (Key.mk h key,n)) ∧
      Absent equals es key) := by
  classical
  obtain ⟨M,hM⟩ := hi.layout.exists_represents
  have hc : 0 < 2^(b+1) := by positivity
  have hhome := hi.layout.home_lt (Key.mk h key)
  obtain ⟨d,hd, -,hpath,hend⟩ := hi.layout.find hM hi.exists_free (Key.mk h key)
   
    fun i _ => decide_eq_true_iff
  have hfind : find equals hashCode kind t key = probe equals kind t key (t.pattern hashCode key)
      (2^(b+1)) (home h (2^(b+1)) (Key.mk h key)) none := by
    rw [find,hi.size,home_mk]
  -- before the end of the search no slot refers to the key
  have hpass (hno : ∀ j < d, ∀ n, item h t b es (slot h b key j) ≠ some (Key.mk h key,n)) :
      ∀ j < d, t.Passes equals kind key (t.pattern hashCode key) (slot h b key j) := fun j hj =>
    hi.passes (mod_lt _ hc) (hpath j hj) (hno j hj)
  rcases hend with ⟨n,hit, -⟩ | ⟨hfree,hnone⟩
  · left
    have hlt := mod_lt (home h (2^(b+1)) (Key.mk h key)+d) hc
    obtain ⟨-,k,v,hn,hk, -⟩ := (hi.item_eq_some hlt).1 hit
    refine ⟨_,n,k,v,?_,hlt,hit,hn,h.symm _ _ ((Key.mk_eq h).1 hk)⟩
    rw [hfind]
    refine probe_found hi.size hhome hd (hpass fun j hj m hm => ?_) (hi.stops hlt hit)
    have hsame := hi.layout.unique _ (mod_lt _ hc) _ hlt _ _ _ hm hit
    have h1 := ringDist_add_mod hhome (show j < 2^(b+1) by omega)
    rw [hsame,ringDist_add_mod hhome hd] at h1
    omega
  · right
    have habs := (hM.absent_iff _).1 hnone
    obtain ⟨j,hj,hprobe,hle⟩ := probe_absent hi.size hhome hd
      (hpass fun j _ m => habs _ (mod_lt _ hc) m)
      (by simpa [Table.free] using hfree)
    refine ⟨j,by omega,by rw [hfind,hprobe],fun m hm => hpath m (by omega),hle,habs,?_⟩
    intro n k v hn
    by_contra hne
    obtain ⟨i,hlt,hit⟩ := hi.indexed n k v hn
    refine habs i hlt n ?_
    rw [hit,(Key.mk_eq h).2 (h.symm _ _ (by simpa using hne))]

end

end Inv

end DartSdk.CompactHash
