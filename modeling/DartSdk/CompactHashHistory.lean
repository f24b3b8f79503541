import DartSdk.CompactHashOperations

/-! The map and the set are compared with a list of pairs in the order of insertion. `_index` has 32
bits for a pattern and an entry, which a table of `2 ^ 33` slots, with at least `2 ^ 30` keys,
exceeds. -/
namespace DartSdk.CompactHash
open LinearProbing Iteration List Nat
open Utils (Arch)

variable {K V : Type} {equals : K → K → Bool} {hashCode : K → ℤ} {kind : Kind V}

section Spec
variable (equals : K → K → Bool) (xs : List (K × V))

def lookup (key : K) : Option (K × V) := xs.find? fun p => equals key p.1

/-- A present key keeps its place, a new one goes to the end. -/
def store (key : K) (value : V) : List (K × V) :=
  if (lookup equals xs key).isSome then
    xs.map fun p => if equals key p.1 then (p.1,value) else p
  else xs ++ [(key,value)]

def erase (key : K) : List (K × V) := xs.filter fun p => !equals key p.1

def mapSpec : MapOp K V → List (K × V) × Answer K V
  | .set key value => (store equals xs key value,.null)
  | .putIfAbsent key value =>
    match lookup equals xs key with
    | some p => (xs,.value p.2)
    | none => (xs ++ [(key,value)],.value value)
  | .remove key => (erase equals xs key,.ofValue ((lookup equals xs key).map Prod.snd))
  | .clear => ([],.null)
  | .containsKey key => (xs,.flag (lookup equals xs key).isSome)
  | .get key => (xs,.ofValue ((lookup equals xs key).map Prod.snd))
  | .length => (xs,.count xs.length)
  | .keys => (xs,.list (xs.map fun p => .key p.1))
  | .values => (xs,.list (xs.map fun p => .value p.2))

def setSpec (xs : List (K × Unit)) : SetOp K → List (K × Unit) × Answer K Unit
  | .add key => (store equals xs key (),.flag (lookup equals xs key).isNone)
  | .remove key => (erase equals xs key,.flag (lookup equals xs key).isSome)
  | .clear => ([],.null)
  | .contains key => (xs,.flag (lookup equals xs key).isSome)
  | .lookup key => (xs,.ofKey ((lookup equals xs key).map Prod.fst))
  | .length => (xs,.count xs.length)
  | .elements => (xs,.list (xs.map fun p => .key p.1))

end Spec

lemma length_reduceOption_add {α : Type} (es : List (Option α)) :
    es.reduceOption.length+es.countP (·.isNone) = es.length := by
  induction es with
  | nil => rfl
  | cons o es ih =>
    cases o with
    | none => simp; omega
    | some a => simp; omega

lemma halve_mask (k : ℕ) : (2^k-1) >>> 1 = 2^(k-1)-1 := by
  cases k with
  | zero => rfl
  | succ k =>
    rw [Nat.shiftRight_eq_div_pow,Nat.pow_succ,Nat.add_sub_cancel]
    omega

lemma Kind.deletedShift_gt (kind : Kind V) (n m : ℕ) :
    n <<< kind.deletedShift > m*kind.step ↔ m < n*2 := by
  cases kind <;> simp only [Kind.deletedShift,Kind.step] <;> omega

lemma reduceOption_map_some {α : Type} (xs : List α) : (xs.map some).reduceOption = xs := by
  simp [reduceOption]

namespace Inv
variable {h : Consistent equals hashCode} {t : Table K V} {b : ℕ} {es : List (Option (K × V))}

lemma rehash_spec (hi : Inv h kind t b es) (hfull : es.length = 2^b)
    (hgrow : es.countP (·.isNone)*2 ≤ es.length → b < 31) (depth : ℕ) :
    ∃ t' b', rehash kind (put equals hashCode kind (depth+1)) t = some t' ∧
      Inv h kind t' b' (es.reduceOption.map some) ∧ es.reduceOption.length < 2^b' := by
  obtain ⟨k,hk,hkb⟩ := hi.mask
  have hlen := length_reduceOption_add es
  have htwo := hi.two_le
  unfold rehash
  simp only [hi.used,hi.deleted,kind.deletedShift_gt,hi.size,hk]
  split_ifs with hdel
  · obtain ⟨t',ht',hi'⟩ := hi.init_spec hi.pos hi.le hkb (by omega) depth
    exact ⟨t',b,ht',hi',by omega⟩
  · have hb := hgrow (by omega)
    obtain ⟨t',ht',hi'⟩ := hi.init_spec (k := k-1) (succ_pos b) hb (by omega)
      (by omega) depth
    refine ⟨t',b+1,?_,hi',by omega⟩
    rwa [halve_mask,shiftLeft_eq,← pow_succ]

lemma not_mem_reduceOption {key : K} (habs : Absent equals es key) :
    ∀ p ∈ es.reduceOption, equals key p.1 = false := by
  rintro ⟨k,v⟩ hp
  obtain ⟨n,hn⟩ := mem_iff_getElem?.1 (reduceOption_mem_iff.1 hp)
  exact habs n k v hn

section
variable (hi : Inv h kind t b es)
include hi

lemma insert_absent {key : K} (value : V)
    (hgrow : es.length = 2^b → es.countP (·.isNone)*2 ≤ es.length → b < 31)
    (habs : Absent equals es key) {i : ℕ} (hf : find equals hashCode kind t key = some (.absent i))
    (depth : ℕ) : ∃ t' b' es',
      insert kind (put equals hashCode kind (depth+1)) t key value (t.pattern hashCode key) i =
      some t' ∧ Inv h kind t' b' es' ∧ es'.reduceOption = es.reduceOption ++ [(key,value)] ∧
      es'.countP (·.isNone) ≤ es.countP (·.isNone) := by
  by_cases hroom : es.length < 2^b
  · obtain ⟨t',ha,hi'⟩ := hi.append_spec value hroom hf
    exact ⟨t',b,_,by simp [insert,hi.not_full hroom,ha],hi',by simp [reduceOption_append],by simp⟩
  · have hfull : es.length = 2^b := le_antisymm hi.fits (by omega)
    obtain ⟨t₁,b',hr,hi₁,hlt⟩ := hi.rehash_spec hfull (hgrow hfull) depth
    obtain ⟨t₂,hp,hi₂⟩ := hi₁.put_room key value (by simpa using hlt) (fun n k v hn => by
      obtain ⟨p,hp,he⟩ := mem_map.1 (mem_of_getElem? hn)
      obtain rfl : p = (k,v) := by simpa using he
      exact not_mem_reduceOption habs _ hp) depth
    refine ⟨t₂,b',_,?_,hi₂,by simp [reduceOption_append,reduceOption_map_some],
      by simp [Function.comp_def]⟩
    have hused : t.usedData = t.data.length := by rw [hi.used,hi.data,hfull]
    rw [insert,if_pos hused]
    simp [hr,hp]

lemma split {key k : K} {n : ℕ} {v : V} (hn : es[n]? = some (some (k,v)))
    (he : equals key k = true) : ∃ pre post, es = pre ++ some (k,v) :: post ∧ pre.length = n ∧
      (∀ p ∈ pre.reduceOption, equals key p.1 = false) ∧ ∀ p ∈ post.reduceOption, equals key p.1 =
      false := by
  have hlt : n < es.length := (List.getElem?_eq_some_iff.1 hn).1
  have hget : es[n] = some (k,v) := (List.getElem?_eq_some_iff.1 hn).2
  have hne : ∀ (m : ℕ) k' v', es[m]? = some (some (k',v')) → m ≠ n → equals key k' = false := by
    intro m k' v' hm hmn
    by_contra hc
    exact hmn (hi.distinct hm hn (h.trans _ _ _ (h.symm _ _ (by simpa using hc)) he))
  refine ⟨es.take n,es.drop (n+1),?_,by simp; omega,?_,?_⟩
  · rw [← hget,List.getElem_cons_drop,List.take_append_drop]
  · refine not_mem_reduceOption fun m k' v' hm => ?_
    have hmn : m < n := by
      have := (List.getElem?_eq_some_iff.1 hm).1
      simp only [List.length_take] at this
      omega
    rw [List.getElem?_take_of_lt hmn] at hm
    exact hne m k' v' hm (by omega)
  · refine not_mem_reduceOption fun m k' v' hm => ?_
    rw [List.getElem?_drop] at hm
    exact hne _ k' v' hm (by omega)

lemma lookup_present {key k : K} {n : ℕ} {v : V} (hn : es[n]? = some (some (k,v)))
    (he : equals key k = true) : lookup equals es.reduceOption key = some (k,v) := by
  obtain ⟨pre,post,rfl, -,hpre, -⟩ := hi.split hn he
  rw [lookup,reduceOption_append,find?_append,find?_eq_none.2 (by simpa using hpre)]
  simp [he]

lemma store_present {key k : K} {n : ℕ} {v : V}
    (hn : es[n]? = some (some (k,v))) (he : equals key k = true) (value : V) :
    (es.set n (some (k,value))).reduceOption = store equals es.reduceOption key value := by
  have hl := hi.lookup_present hn he
  obtain ⟨pre,post,rfl,rfl,hpre,hpost⟩ := hi.split hn he
  have hsame : ∀ {l : List (Option (K × V))}, (∀ p ∈ l.reduceOption, equals key p.1 = false) →
      l.reduceOption.map (fun p => if equals key p.1 then (p.1,value) else p) = l.reduceOption := by
    intro l hl
    refine (map_congr_left fun p hp => ?_).trans (map_id _)
    simp [hl p hp]
  rw [store,hl]
  simp [reduceOption_append,hsame hpre,hsame hpost,he]

lemma erase_present {key k : K} {n : ℕ} {v : V}
    (hn : es[n]? = some (some (k,v))) (he : equals key k = true) :
    (es.set n none).reduceOption = erase equals es.reduceOption key := by
  obtain ⟨pre,post,rfl,rfl,hpre,hpost⟩ := hi.split hn he
  have hsame : ∀ {l : List (Option (K × V))}, (∀ p ∈ l.reduceOption, equals key p.1 = false) →
      l.reduceOption.filter (fun p => !equals key p.1) = l.reduceOption :=
    fun hl => filter_eq_self.2 fun p hp => by simp [hl p hp]
  rw [erase]
  simp [reduceOption_append,hsame hpre,hsame hpost,he]

end

lemma lookup_absent {key : K} (habs : Absent equals es key) :
    lookup equals es.reduceOption key = none :=
  find?_eq_none.2 fun p hp => by simp [not_mem_reduceOption habs p hp]

section
variable (hi : Inv h kind t b es)
include hi

variable (key : K)

lemma present_or_absent :
    (∃ (n : ℕ) (k : K) (v : V), es[n]? = some (some (k,v)) ∧ equals key k = true) ∨
      Absent equals es key := by
  rcases hi.find_spec key with ⟨_,n,k,v, -, -, -,hn,he⟩ | ⟨_, -, -, -, -, -,habs⟩
  · exact Or.inl ⟨n,k,v,hn,he⟩
  · exact Or.inr habs

lemma getOrData_spec :
    getOrData equals hashCode kind t key = some (lookup equals es.reduceOption key) := by
  rcases hi.present_or_absent key with ⟨n,k,v,hn,he⟩ | habs
  · obtain ⟨i, -,hf, -⟩ := hi.find_present hn he
    have hh := hi.holds n _ hn
    simp [getOrData,hf,kind.shift_eq,hh.keyAt,hh.storedValue,hi.lookup_present hn he]
  · obtain ⟨i,hf⟩ := hi.absent_of_find habs
    simp [getOrData,hf,lookup_absent habs]

lemma remove_spec : ∃ t' es', remove equals hashCode kind t key =
      some (t',(lookup equals es.reduceOption key).map Prod.snd) ∧ Inv h kind t' b es' ∧
      es'.reduceOption = erase equals es.reduceOption key := by
  rcases hi.present_or_absent key with ⟨n,k,v,hn,he⟩ | habs
  · obtain ⟨i,hlt,hf,hit⟩ := hi.find_present hn he
    obtain ⟨data',hd,hw⟩ := setDeleted_spec (hi.data_le (hi.lt_of_getElem hn))
    refine ⟨_,_,?_,hi.removed hlt hit hn hw rfl,hi.erase_present hn he⟩
    simp [remove,hf,kind.shift_eq,assign_eq (hi.size_eq hlt),(hi.holds n _ hn).storedValue,hd,
      hi.lookup_present hn he]
  · obtain ⟨i,hf⟩ := hi.absent_of_find habs
    refine ⟨t,es,by simp [remove,hf,lookup_absent habs],hi,?_⟩
    exact (filter_eq_self.2 fun p hp => by simp [not_mem_reduceOption habs p hp]).symm

lemma growable (hlt : es.reduceOption.length < 2^30) :
    es.length = 2^b → es.countP (·.isNone)*2 ≤ es.length → b < 31 := by
  intro hfull hdel
  have hlen := length_reduceOption_add es
  have hle := hi.le
  by_contra hb
  obtain rfl : b = 31 := by omega
  omega

lemma put_spec (value : V) (hgrow : lookup equals es.reduceOption key = none →
      es.length = 2^b → es.countP (·.isNone)*2 ≤ es.length → b < 31) :
    ∃ t' b' es', put equals hashCode kind kMaxDepth t key value =
        some (t',(lookup equals es.reduceOption key).isNone) ∧
      Inv h kind t' b' es' ∧ es'.reduceOption = store equals es.reduceOption key value ∧
      es'.countP (·.isNone) ≤ es.countP (·.isNone) := by
  rcases hi.present_or_absent key with ⟨n,k,v,hn,he⟩ | habs
  · obtain ⟨t',hp,hi'⟩ := hi.put_present hn he value 1
    refine ⟨t',b,_,by rw [hi.lookup_present hn he]; exact hp,hi',hi.store_present hn he value,?_⟩
    rw [List.countP_set (List.getElem?_eq_some_iff.1 hn).1]
    simp
  · have hl := lookup_absent habs
    obtain ⟨i,hf⟩ := hi.absent_of_find habs
    obtain ⟨t',b',es',hins,hi',hes,hcount⟩ := hi.insert_absent value (hgrow hl) habs hf 0
    refine ⟨t',b',es',?_,hi',by rw [hes,store,hl]; rfl,hcount⟩
    rw [kMaxDepth,put_of_absent hf,hins,hl]
    rfl

lemma putIfAbsent_spec (value : V) (hgrow : lookup equals es.reduceOption key = none →
      es.length = 2^b → es.countP (·.isNone)*2 ≤ es.length → b < 31) :
    ∃ t' b' es', Inv h kind t' b' es' ∧
      match lookup equals es.reduceOption key with
      | some p => putIfAbsent equals hashCode kind t key value = some (t',p.2) ∧
        es'.reduceOption = es.reduceOption
      | none => putIfAbsent equals hashCode kind t key value = some (t',value) ∧
        es'.reduceOption = es.reduceOption ++ [(key,value)] := by
  rcases hi.present_or_absent key with ⟨n,k,v,hn,he⟩ | habs
  · obtain ⟨i, -,hf, -⟩ := hi.find_present hn he
    refine ⟨t,b,es,hi,?_⟩
    simp [hi.lookup_present hn he,putIfAbsent,hf,kind.shift_eq,(hi.holds n _ hn).storedValue]
  · have hl := lookup_absent habs
    obtain ⟨i,hf⟩ := hi.absent_of_find habs
    obtain ⟨t',b',es',hins,hi',hes, -⟩ := hi.insert_absent value (hgrow hl) habs hf 1
    refine ⟨t',b',es',hi',?_⟩
    simp [hl,putIfAbsent,hf,Table.isModifiedSince,kMaxDepth,hins,hes]

lemma length_spec : t.length kind = es.reduceOption.length := by
  have hlen := length_reduceOption_add es
  have hused := hi.used
  have hdel := hi.deleted
  cases kind with
  | map =>
    simp only [Kind.step] at hused
    simp only [Table.length]
    omega
  | set =>
    simp only [Kind.step] at hused
    simp only [Table.length]
    omega

lemma clear_spec : ∃ es', Inv h kind (clear kind t) b es' ∧ es'.reduceOption = [] := by
  unfold clear
  rw [hi.length_spec]
  split_ifs with h0
  · exact ⟨es,hi,length_eq_zero_iff.1 (by omega)⟩
  · obtain ⟨k,hk,hkb⟩ := hi.mask
    rw [hi.size,hk]
    exact ⟨[],Inv.new h kind hi.pos hi.le hkb _,rfl⟩

end

end Inv

section Iteration
variable {t : Table K V} {es : List (Option (K × V))} {step col : ℕ} {cellOf : K × V → Cell K V}

/-- Column `col` of the entries, with what is stored there for an entry. -/
structure Column (t : Table K V) (es : List (Option (K × V))) (step col : ℕ)
    (cellOf : K × V → Cell K V) : Prop where
  lt : col < step
  used : t.usedData = es.length*step
  cell : ∀ n o, es[n]? = some o → t.data[n*step+col]? = some (o.elim .deleted cellOf)
  ne : ∀ p, cellOf p ≠ .deleted

variable (hc : Column t es step col cellOf)
include hc

lemma Column.lt_used (n : ℕ) : n*step+col < t.usedData ↔ n < es.length := by
  have := hc.lt
  rw [hc.used]
  constructor
  · intro h
    by_contra hn
    have := mul_le_mul_right step (not_lt.1 hn)
    omega
  · intro h
    have := mul_le_mul_right step (show n+1 ≤ es.length from h)
    rw [add_mul,one_mul] at this
    omega

lemma skipDeleted_spec (fuel : ℕ) : ∀ n, es.length-n < fuel → (∃ m p, n ≤ m ∧ m < es.length ∧
      (es.drop n).reduceOption = p :: (es.drop (m+1)).reduceOption ∧
      skipDeleted t.data t.usedData step fuel ((n*step+col : ℕ)-step) =
        some (((m*step+col : ℕ) : ℤ),some (cellOf p))) ∨
    ((es.drop n).reduceOption = [] ∧ ∃ off,
      skipDeleted t.data t.usedData step fuel ((n*step+col : ℕ)-step) = some (off,none)) := by
  induction fuel with
  | zero => intro n hn; omega
  | succ fuel ih =>
    intro n hn
    have hoff : (((n*step+col : ℕ) : ℤ)-step)+step = (n*step+col : ℕ) := by omega
    unfold skipDeleted
    simp only [hoff,cast_lt,hc.lt_used,Int.toNat_natCast]
    by_cases hlt : n < es.length
    · have hget : es[n]? = some es[n] := getElem?_eq_getElem hlt
      have hdrop : es.drop n = es[n] :: es.drop (n+1) := (getElem_cons_drop ..).symm
      have hcell := hc.cell n _ hget
      cases hcase : es[n] with
      | none =>
        rw [hcase] at hcell hdrop
        have hnext : ((n*step+col : ℕ) : ℤ) = ((n+1)*step+col : ℕ)-step := by
          push_cast
          ring
        rw [if_pos hlt,hcell,hdrop,reduceOption_cons_of_none]
        simp only [hnext]
        rcases ih (n+1) (by omega) with ⟨m,p,hm,hml,hr,hs⟩ | ⟨hr,off,hs⟩
        · exact Or.inl ⟨m,p,by omega,hml,hr,hs⟩
        · exact Or.inr ⟨hr,off,hs⟩
      | some p =>
        rw [hcase] at hcell hdrop
        simp only [Option.elim] at hcell
        left
        refine ⟨n,p,le_rfl,hlt,by rw [hdrop,reduceOption_cons_of_some],?_⟩
        rw [if_pos hlt,hcell]
        cases hcp : cellOf p with
        | deleted => exact absurd hcp (hc.ne p)
        | _ => rfl
    · right
      rw [if_neg hlt,drop_eq_nil_of_le (by omega)]
      exact ⟨rfl,_,rfl⟩

lemma iterate_spec (fuel : ℕ) : ∀ n, es.length-n < fuel →
    iterate t fuel (iterator t ((n*step+col : ℕ)-step) step) =
      some ((es.drop n).reduceOption.map cellOf) := by
  induction fuel with
  | zero => intro n hn; omega
  | succ fuel ih =>
    intro n hn
    have hfuel : es.length-n < t.usedData+1 := by
      have := hc.lt
      have := Nat.le_mul_of_pos_right es.length (show 0 < step by omega)
      rw [hc.used]
      omega
    have hmod : t.isModifiedSince t.dataId t.checkSum = false := by simp [Table.isModifiedSince]
    rcases skipDeleted_spec hc (t.usedData+1) n hfuel with ⟨m,p,hm,hml,hr,hs⟩ | ⟨hr,off,hs⟩
    · have hnext : ((m*step+col : ℕ) : ℤ) = ((m+1)*step+col : ℕ)-step := by
        push_cast
        ring
      have hih := ih (m+1) (by omega)
      rw [← hnext] at hih
      simp only [iterator] at hih
      simp only [iterate,moveNext,iterator,hmod,Bool.false_eq_true,if_false,hs,hr,
        some_bind,Option.pure_def,hih]
      rfl
    · simp only [iterate,moveNext,iterator,hmod,hs,hr]
      rfl

end Iteration

namespace Inv
variable {h : Consistent equals hashCode} {t : Table K V} {b : ℕ} {es : List (Option (K × V))}

lemma keys_spec (hi : Inv h kind t b es) :
    keys kind t = some (es.reduceOption.map fun p => .key p.1) := by
  have hc : Column t es kind.step 0 fun p => .key p.1 := by
    refine ⟨kind.step_pos,hi.used,fun n o hn => ?_,fun p => by simp⟩
    cases o with
    | none => exact (hi.holds n _ hn).deleted
    | some p => exact (hi.holds n (some (p.1,p.2)) hn).getElem
  have hlen : es.length ≤ t.usedData := by
    rw [hi.used]
    exact Nat.le_mul_of_pos_right _ kind.step_pos
  have := iterate_spec hc (t.usedData+1) 0 (by omega)
  simpa [keys] using this

lemma values_spec (hi : Inv h .map t b es) :
    values t = some (es.reduceOption.map fun p => .value p.2) := by
  have hc : Column t es 2 1 fun p => .value p.2 := by
    refine ⟨by norm_num,hi.used,fun n o hn => ?_,fun p => by simp⟩
    have := hi.holds n o hn 1 (by simp [Kind.step])
    cases o <;> simpa [cells,Kind.step] using this
  have hlen : es.length ≤ t.usedData := by
    rw [hi.used]
    simp only [Kind.step]
    omega
  have := iterate_spec hc (t.usedData+1) 0 (by omega)
  simpa [values] using this

end Inv

section History
variable (h : Consistent equals hashCode)

/-- `t` holds the pairs `xs`. -/
def Refines (kind : Kind V) (t : Table K V) (xs : List (K × V)) : Prop :=
  ∃ b es, Inv h kind t b es ∧ es.reduceOption = xs

lemma create_inv (kind : Kind V) (a : Arch) : Inv h kind (create kind a) 3 [] := by
  cases a with
  | bits32 => exact Inv.new h kind (b := 3) (k := 27) (by norm_num) (by norm_num) (by norm_num) 0
  | bits64 => exact Inv.new h kind (b := 3) (k := 29) (by norm_num) (by norm_num) (by norm_num) 0

lemma create_refines (kind : Kind V) (a : Arch) : Refines h kind (create kind a) [] :=
  ⟨3,[],create_inv h kind a,rfl⟩

variable {h}

lemma Refines.unused {t : Table K V} {xs : List (K × V)} (hr : Refines h kind t xs) :
    ∃ i : ℕ, t.index[i]? = some kUnusedPair := by
  obtain ⟨b,es,hi, -⟩ := hr
  obtain ⟨i,hlt,hf⟩ := hi.exists_free
  refine ⟨i,?_⟩
  rw [Table.getElem_index (hi.size_eq hlt)]
  simpa [Table.free] using hf

/-- An insertion of a new key finds fewer than `2 ^ 30` keys. -/
def MapOp.Fits (equals : K → K → Bool) (xs : List (K × V)) : MapOp K V → Prop
  | .set key _ => lookup equals xs key = none → xs.length < 2^30
  | .putIfAbsent key _ => lookup equals xs key = none → xs.length < 2^30
  | _ => True

def SetOp.Fits (equals : K → K → Bool) (xs : List (K × Unit)) : SetOp K → Prop
  | .add key => CompactHash.lookup equals xs key = none → xs.length < 2^30
  | _ => True

lemma mapStep_refines (t : Table K V) (xs : List (K × V)) (op : MapOp K V)
    (hr : Refines h .map t xs) (hok : op.Fits equals xs) : ∃ t', mapStep equals hashCode t op =
      some (t',(mapSpec equals xs op).2) ∧ Refines h .map t' (mapSpec equals xs op).1 := by
  obtain ⟨b,es,hi,rfl⟩ := hr
  cases op with
  | set key value =>
    obtain ⟨t',b',es',hp,hi',hes, -⟩ := hi.put_spec key value fun hl => hi.growable (hok hl)
    exact ⟨t',by simp [mapStep,hp,mapSpec],b',es',hi',hes⟩
  | putIfAbsent key value =>
    obtain ⟨t',b',es',hi',hp⟩ := hi.putIfAbsent_spec key value fun hl => hi.growable (hok hl)
    cases hl : lookup equals es.reduceOption key with
    | none =>
      simp only [hl] at hp
      exact ⟨t',by simp [mapStep,hp.1,mapSpec,hl],b',es',hi',by simp [mapSpec,hl,hp.2]⟩
    | some p =>
      simp only [hl] at hp
      exact ⟨t',by simp [mapStep,hp.1,mapSpec,hl],b',es',hi',by simp [mapSpec,hl,hp.2]⟩
  | remove key =>
    obtain ⟨t',es',hp,hi',hes⟩ := hi.remove_spec key
    exact ⟨t',by simp [mapStep,hp,mapSpec],b,es',hi',hes⟩
  | clear =>
    obtain ⟨es',hi',hes⟩ := hi.clear_spec
    exact ⟨_,rfl,b,es',hi',hes⟩
  | containsKey key => exact ⟨t,by simp [mapStep,hi.getOrData_spec,mapSpec],b,es,hi,rfl⟩
  | get key => exact ⟨t,by simp [mapStep,hi.getOrData_spec,mapSpec],b,es,hi,rfl⟩
  | length => exact ⟨t,by simp [mapStep,hi.length_spec,mapSpec],b,es,hi,rfl⟩
  | keys => exact ⟨t,by simp [mapStep,hi.keys_spec,mapSpec],b,es,hi,rfl⟩
  | values => exact ⟨t,by simp [mapStep,hi.values_spec,mapSpec],b,es,hi,rfl⟩

lemma setStep_refines (t : Table K Unit) (xs : List (K × Unit)) (op : SetOp K)
    (hr : Refines h .set t xs) (hok : op.Fits equals xs) : ∃ t', setStep equals hashCode t op =
      some (t',(setSpec equals xs op).2) ∧ Refines h .set t' (setSpec equals xs op).1 := by
  obtain ⟨b,es,hi,rfl⟩ := hr
  cases op with
  | add key =>
    obtain ⟨t',b',es',hp,hi',hes, -⟩ := hi.put_spec key () fun hl => hi.growable (hok hl)
    exact ⟨t',by simp [setStep,hp,setSpec],b',es',hi',hes⟩
  | remove key =>
    obtain ⟨t',es',hp,hi',hes⟩ := hi.remove_spec key
    exact ⟨t',by simp [setStep,hp,setSpec],b,es',hi',hes⟩
  | clear =>
    obtain ⟨es',hi',hes⟩ := hi.clear_spec
    exact ⟨_,rfl,b,es',hi',hes⟩
  | contains key => exact ⟨t,by simp [setStep,hi.getOrData_spec,setSpec],b,es,hi,rfl⟩
  | lookup key => exact ⟨t,by simp [setStep,hi.getOrData_spec,setSpec],b,es,hi,rfl⟩
  | length => exact ⟨t,by simp [setStep,hi.length_spec,setSpec],b,es,hi,rfl⟩
  | elements => exact ⟨t,by simp [setStep,hi.keys_spec,setSpec],b,es,hi,rfl⟩

/-- As long as a new key finds fewer than `2 ^ 30` keys, every history answers as the list of
pairs in order of insertion does, and the index keeps an unused slot. -/
theorem history_insertion_ordered {equals : K → K → Bool} {hashCode : K → ℤ}
    (h : Consistent equals hashCode) (a : Arch) :
    (∀ ops : List (MapOp K V), Legal (fun xs op => op.Fits equals xs) (mapSpec equals) [] ops →
      ∃ t, run (mapStep equals hashCode) (create .map a) ops =
          some (t,(exec (mapSpec equals) [] ops).2) ∧ ∃ i : ℕ, t.index[i]? = some kUnusedPair) ∧
    ∀ ops : List (SetOp K), Legal (fun xs op => op.Fits equals xs) (setSpec equals) [] ops →
      ∃ t, run (setStep equals hashCode) (create .set a) ops =
          some (t,(exec (setSpec equals) [] ops).2) ∧ ∃ i : ℕ, t.index[i]? = some kUnusedPair := by
  constructor
  · intro ops hl
    obtain ⟨t,hrun,hr⟩ := run_refines (Refines h .map) mapStep_refines ops (create_refines h _ a) hl
    exact ⟨t,hrun,hr.unused⟩
  · intro ops hl
    obtain ⟨t,hrun,hr⟩ := run_refines (Refines h .set) setStep_refines ops (create_refines h _ a) hl
    exact ⟨t,hrun,hr.unused⟩

lemma consistent_nat : Consistent (fun a b : ℕ => a == b) fun n => (n : ℤ) :=
  ⟨by simp,by simp,by simp,by simp⟩

theorem history_insertion_ordered_sample : ∃ t : Table ℕ ℕ,
    run (mapStep (fun a b : ℕ => a == b) fun n : ℕ => (n : ℤ)) (create .map .bits64)
      [.set 3 1,.set 4 2,.remove 3,.set 3 5,.keys] =
      some (t,[.null,.null,.value 1,.null,.list [.key 4,.key 3]]) :=
  have hl : Legal (fun xs op => op.Fits (fun a b : ℕ => a == b) xs) (mapSpec fun a b : ℕ => a == b) []
      [.set 3 1,.set 4 2,.remove 3,.set 3 5,MapOp.keys] := by
    simp [Legal,MapOp.Fits,mapSpec,store,lookup,erase]
  ((history_insertion_ordered consistent_nat .bits64).1 _ hl).imp fun _ ht => ht.1

end History

end DartSdk.CompactHash
