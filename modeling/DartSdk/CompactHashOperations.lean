import DartSdk.CompactHashRefines

/-! What inserting, overwriting, deleting and rehashing do to the list of entries. -/
namespace DartSdk.CompactHash
open LinearProbing Iteration List Nat Table

variable {K V : Type} {equals : K → K → Bool} {hashCode : K → ℤ} {kind : Kind V}
variable {data' : List (Cell K V)} {t' : Table K V}

lemma Table.pair_set {t : Table K V} {i p : ℕ} (hi : i < t.index.length)
    (h : t'.index = t.index.set i p) (j : ℕ) : t'.pair j = if j = i then p else t.pair j := by
  unfold pair
  rw [h]
  by_cases hj : j = i
  · subst hj
    simp [hi]
  · simp [getElem?_set_ne (Ne.symm hj),hj]

lemma Shape.congr {t : Table K V} {b : ℕ} (hs : Shape kind t b)
    (hindex : t'.index.length = t.index.length) (hmask : t'.hashMask = t.hashMask)
    (hdata : t'.data.length = t.data.length) : Shape kind t' b :=
  ⟨hs.pos,hs.le,hindex.trans hs.size,hmask ▸ hs.mask,hdata.trans hs.data⟩

lemma pattern_congr {t : Table K V} (hashCode : K → ℤ) (hindex : t'.index.length = t.index.length)
    (hmask : t'.hashMask = t.hashMask) (k : K) : t'.pattern hashCode k = t.pattern hashCode k := by
  rw [pattern,pattern,hindex,hmask]

namespace Inv
variable {h : Consistent equals hashCode} {t : Table K V} {b : ℕ} {es : List (Option (K × V))}

variable (hi : Inv h kind t b es)
include hi

lemma data_le {n : ℕ} (hn : n < 2^b) : (n+1)*kind.step ≤ t.data.length := by
  rw [hi.data]
  exact mul_le_mul_right _ hn

lemma size_eq {i : ℕ} (hlt : i < 2^(b+1)) : i < t.index.length :=
  hi.size ▸ hlt

omit hi in
lemma new (h : Consistent equals hashCode) (kind : Kind V) {k : ℕ} (hb : 0 < b) (hle : b ≤ 31)
    (hk : k+b ≤ 32) (id : ℕ) : Inv h kind (fresh kind (2^(b+1)) (2^k-1) id) b [] := by
  have hpair : ∀ i, (fresh kind (2^(b+1)) (2^k-1) id : Table K V).pair i = 0 := by
    intro i
    simp only [Table.pair,fresh,getD_eq_getElem?_getD,getElem?_replicate]
    split_ifs <;> rfl
  have hitem : ∀ i, item h (fresh kind (2^(b+1)) (2^k-1) id : Table K V) b [] i = none := by
    intro i
    simp [item]
  refine ⟨⟨hb,hle,by simp [fresh],⟨k,rfl,hk⟩,by simp [fresh,kind.dataLength_eq]⟩,?_,?_,?_,
    ?_,?_,?_,?_,?_⟩
  · simp [fresh]
  · simp
  · simp [fresh]
  · simp
  · intro i _ hp
    simp [hpair] at hp
  · exact Layout.empty (fun q => Quotient.inductionOn q fun k => firstProbe_lt _ _) fun i _ => hitem i
  · simp
  · rw [countSlots_false fun j _ => by simp [free,hpair,kUnusedPair]]
    simp

lemma appended {key : K} {value : V} {d : ℕ} (hroom : es.length < 2^b) (hd : d < 2^(b+1))
    (hpath : ∀ j < d, t.free (slot h b key j) = false) (hslot : t.pair (slot h b key d) ≤ 1)
    (hno : ∀ i < 2^(b+1), ∀ n, item h t b es i ≠ some (Key.mk h key,n))
    (hw : Writes kind t.data es.length (some (key,value)) data') (ht' : t' = { t with
      index := t.index.set (slot h b key d) (t.pattern hashCode key+es.length)
      data := data', usedData := t.usedData+kind.step }) :
    Inv h kind t' b (es ++ [some (key,value)]) := by
  have hc : 0 < 2^(b+1) := by positivity
  generalize hi0 : slot h b key d = i at ht' hslot
  have hlt : i < 2^(b+1) := hi0 ▸ mod_lt _ hc
  have hpair : ∀ j, t'.pair j = _ := pair_set (hi.size_eq hlt) (by rw [ht'])
  have hpat : ∀ k, t'.pattern hashCode k = t.pattern hashCode k :=
    pattern_congr hashCode (by simp [ht']) (by simp [ht'])
  have hone := hi.one_lt_pattern hashCode key
  have hnew : (es ++ [some (key,value)])[es.length]? = some (some (key,value)) := by simp
  have hold : ∀ (n : ℕ) o, es[n]? = some o → (es ++ [some (key,value)])[n]? = some o := by
    intro n o hn
    rw [List.getElem?_append_left (List.getElem?_eq_some_iff.1 hn).1,hn]
  have hpairs : ∀ j < 2^(b+1), 1 < t'.pair j → ∃ n k v,
      (es ++ [some (key,value)])[n]? = some (some (k,v)) ∧
        t'.pair j = t'.pattern hashCode k+n := by
    intro j hj hp
    rw [hpair j] at hp ⊢
    split_ifs at hp ⊢
    · exact ⟨es.length,key,value,hnew,by rw [hpat]⟩
    · obtain ⟨n,k,v,hn,he⟩ := hi.pairs j hj hp
      exact ⟨n,k,v,hold n _ hn,by rw [he,hpat]⟩
  have hitem : ∀ j < 2^(b+1), item h t' b (es ++ [some (key,value)]) j =
      if j = i then some (Key.mk h key,es.length) else item h t b es j := by
    intro j hj
    unfold item
    rw [hpair j]
    by_cases hji : j = i
    · obtain ⟨q, -,hq, -⟩ := hi.pattern_eq hashCode key
      have hmod : (t.pattern hashCode key+es.length)%2^b = es.length := by
        rw [hq,mul_add_mod_self_right,mod_eq_of_lt hroom]
      rw [if_pos hji,if_pos hji,if_neg (by omega),hmod,hnew]
      rfl
    · rw [if_neg hji,if_neg hji]
      split_ifs with hp
      · rfl
      · obtain ⟨n,k,v,hn,he⟩ := hi.pairs j hj (by omega)
        rw [hi.pair_mod hn he,hn,hold n _ hn]
  have hfree : ∀ j < 2^(b+1), t'.free j = true → j ≠ i ∧ t.free j = true := by
    intro j _ hf
    unfold free at hf ⊢
    rw [hpair j] at hf
    split_ifs at hf with hji
    · simp only [kUnusedPair,beq_iff_eq] at hf
      omega
    · exact ⟨hji,hf⟩
  have hnone : item h t b es i = none := by simp [item,hslot]
  refine ⟨hi.toShape.congr (by simp [ht']) (by simp [ht']) (by simp [ht',hw.length]),?_,?_,?_,?_,
    hpairs,hi.layout.insert hd hi0 hpath hno hfree hitem,?_,?_⟩
  · simp [ht',hi.used,length_append,add_mul,one_mul]
  · simpa using hroom
  · simp [ht',hi.deleted]
  · intro n o hn
    rw [ht']
    by_cases hne : n = es.length
    · rw [hne,hnew] at hn
      cases hn
      exact hne ▸ hw.self
    · have hlt' : n < es.length := by
        have := (List.getElem?_eq_some_iff.1 hn).1
        simp only [List.length_append,List.length_singleton] at this
        omega
      rw [List.getElem?_append_left hlt'] at hn
      exact hw.other n o hne (hi.holds n o hn)
  · intro n k v hn
    by_cases hne : n = es.length
    · rw [hne,hnew] at hn
      cases hn
      exact ⟨i,hlt,by rw [hitem i hlt,if_pos rfl,hne]⟩
    · have hlt' : n < es.length := by
        have := (List.getElem?_eq_some_iff.1 hn).1
        simp only [List.length_append,List.length_singleton] at this
        omega
      rw [List.getElem?_append_left hlt'] at hn
      obtain ⟨j,hj,hjt⟩ := hi.indexed n k v hn
      have hji : j ≠ i := by
        rintro rfl
        simp [hnone] at hjt
      exact ⟨j,hj,by rw [hitem j hj,if_neg hji,hjt]⟩
  · have hcount := countSlots_change (q := fun j => !t'.free j) (p := fun j => !t.free j) hlt
      (fun j _ hji => by simp [free,hpair j,hji])
    have := hi.count
    simp only [length_append,length_singleton]
    split_ifs at hcount <;> omega

lemma overwritten {n : ℕ} {k : K} {v value : V} (hn : es[n]? = some (some (k,v)))
    (hw : Writes kind t.data n (some (k,value)) data') :
    Inv h kind { t with data := data' } b (es.set n (some (k,value))) := by
  have hlt : n < es.length := (List.getElem?_eq_some_iff.1 hn).1
  have hset : ∀ m : ℕ, (es.set n (some (k,value)))[m]? =
      if m = n then some (some (k,value)) else es[m]? := by
    intro m
    by_cases hm : m = n
    · subst hm
      simp [hlt]
    · rw [getElem?_set_ne (Ne.symm hm),if_neg hm]
  have hkeys : ∀ (m : ℕ) k' v', (es.set n (some (k,value)))[m]? = some (some (k',v')) →
      ∃ v'', es[m]? = some (some (k',v'')) := by
    intro m k' v' hm
    rw [hset] at hm
    split_ifs at hm with hmn
    · cases hm
      exact ⟨v,hmn ▸ hn⟩
    · exact ⟨v',hm⟩
  have hitem : item h { t with data := data' } b (es.set n (some (k,value))) = item h t b es := by
    funext i
    unfold item
    simp only [Table.pair,hset]
    by_cases hm : t.index.getD i kUnusedPair%2^b = n
    · simp only [hm,hn]
      rfl
    · simp only [if_neg hm]
      rfl
  refine ⟨hi.toShape.congr rfl rfl hw.length,by simpa using hi.used,by simpa using hi.fits,?_,?_,
    ?_,by rw [hitem]; exact hi.layout,?_,by rw [List.length_set]; exact hi.count⟩
  · have hget : es[n] = some (k,v) := (List.getElem?_eq_some_iff.1 hn).2
    rw [List.countP_set hlt]
    simpa [hget] using hi.deleted
  · intro m o hm
    rw [hset] at hm
    split_ifs at hm with hmn
    · cases hm
      exact hmn ▸ hw.self
    · exact hw.other m o hmn (hi.holds m o hm)
  · intro i hlt' hp
    obtain ⟨m,k',v',hm,he⟩ := hi.pairs i hlt' hp
    by_cases hmn : m = n
    · subst hmn
      rw [hn] at hm
      cases hm
      exact ⟨m,k,value,by rw [hset,if_pos rfl],he⟩
    · exact ⟨m,k',v',by rw [hset,if_neg hmn,hm],he⟩
  · intro m k' v' hm
    obtain ⟨v'',hm'⟩ := hkeys m k' v' hm
    rw [hitem]
    exact hi.indexed m k' v'' hm'

lemma removed {i n : ℕ} {k : K} {v : V} {q : Key h}
    (hlt : i < 2^(b+1)) (hit : item h t b es i = some (q,n))
    (hn : es[n]? = some (some (k,v))) (hw : Writes kind t.data n none data') (ht' : t' = { t with
      index := t.index.set i kDeletedPair, data := data', deletedKeys := t.deletedKeys+1 }) :
    Inv h kind t' b (es.set n none) := by
  have hnlt : n < es.length := (List.getElem?_eq_some_iff.1 hn).1
  have hpair : ∀ j, t'.pair j = _ := pair_set (hi.size_eq hlt) (by rw [ht'])
  have hpat : ∀ k, t'.pattern hashCode k = t.pattern hashCode k :=
    pattern_congr hashCode (by simp [ht']) (by simp [ht'])
  have hset : ∀ m : ℕ, (es.set n none)[m]? = if m = n then some none else es[m]? := by
    intro m
    by_cases hm : m = n
    · subst hm
      simp [hnlt]
    · rw [getElem?_set_ne (Ne.symm hm),if_neg hm]
  -- no other slot refers to the entry
  have hother : ∀ j < 2^(b+1), ∀ q', item h t b es j = some (q',n) → j = i := by
    intro j hj q' hjt
    obtain ⟨-,k₁,v₁,h₁,hk₁, -⟩ := (hi.item_eq_some hlt).1 hit
    obtain ⟨-,k₂,v₂,h₂,hk₂, -⟩ := (hi.item_eq_some hj).1 hjt
    rw [h₁] at h₂
    cases h₂
    rw [← hk₂,hk₁] at hjt
    exact hi.layout.unique j hj i hlt _ _ _ hjt hit
  have hitem : ∀ j < 2^(b+1), item h t' b (es.set n none) j =
      if j = i then none else item h t b es j := by
    intro j hj
    by_cases hji : j = i
    · rw [if_pos hji]
      unfold item
      rw [hpair,if_pos hji]
      rfl
    · rw [if_neg hji]
      unfold item
      rw [hpair,if_neg hji]
      split_ifs with h1
      · rfl
      · obtain ⟨m,k',v',hm,he⟩ := hi.pairs j hj (by omega)
        have hjt : item h t b es j = some (Key.mk h k',m) :=
          (hi.item_eq_some hj).2 ⟨by omega,k',v',hm,rfl,he⟩
        have hmn : m ≠ n := by
          rintro rfl
          exact hji (hother j hj _ hjt)
        rw [hi.pair_mod hm he,hset,if_neg hmn]
  have hlive : 1 < t.pair i := ((hi.item_eq_some hlt).1 hit).1
  have hfree : ∀ j, t'.free j = t.free j := by
    intro j
    unfold free
    rw [hpair]
    split_ifs with hji
    · subst hji
      have hne : t.pair j ≠ kUnusedPair := by simp only [kUnusedPair]; omega
      simp [kDeletedPair,kUnusedPair] at hne ⊢
      exact hne
    · rfl
  refine ⟨hi.toShape.congr (by simp [ht']) (by simp [ht']) (by simp [ht',hw.length]),?_,?_,?_,?_,
    ?_,?_,?_,?_⟩
  · simpa [ht'] using hi.used
  · simpa using hi.fits
  · have hget : es[n] = some (k,v) := (List.getElem?_eq_some_iff.1 hn).2
    rw [List.countP_set hnlt]
    simp [hget,ht',hi.deleted]
  · intro m o hm
    rw [ht']
    rw [hset] at hm
    split_ifs at hm with hmn
    · cases hm
      exact hmn ▸ hw.self
    · exact hw.other m o hmn (hi.holds m o hm)
  · intro j hj hp
    rw [hpair] at hp ⊢
    split_ifs at hp ⊢ with hji
    · simp [kDeletedPair] at hp
    · obtain ⟨m,k',v',hm,he⟩ := hi.pairs j hj hp
      have hmn : m ≠ n := by
        rintro rfl
        exact hji (hother j hj _ ((hi.item_eq_some hj).2 ⟨hp,k',v',hm,rfl,he⟩))
      exact ⟨m,k',v',by rw [hset,if_neg hmn,hm],by rw [he,hpat]⟩
  · refine hi.layout.mono (fun j _ hf => by rwa [hfree] at hf) ?_
    intro j hj q' m hjt
    rw [hitem j hj] at hjt
    split_ifs at hjt
    exact ⟨m,hjt⟩
  · intro m k' v' hm
    rw [hset] at hm
    split_ifs at hm with hmn
    · simp at hm
    obtain ⟨j,hj,hjt⟩ := hi.indexed m k' v' hm
    have hji : j ≠ i := by
      rintro rfl
      rw [hit] at hjt
      simp only [Option.some.injEq,Prod.mk.injEq] at hjt
      exact hmn hjt.2.symm
    exact ⟨j,hj,by rw [hitem j hj,if_neg hji,hjt]⟩
  · simpa [hfree] using hi.count

lemma find_present {key k : K} {n : ℕ} {v : V} (hn : es[n]? = some (some (k,v)))
    (he : equals key k = true) : ∃ i < 2^(b+1), find equals hashCode kind t key =
      some (.found i n) ∧ item h t b es i = some (Key.mk h key,n) := by
  rcases hi.find_spec key with ⟨i,m,k',v',hf,hlt,hit,hm,he'⟩ | ⟨-, -, -, -, -, -,habs⟩
  · obtain rfl := hi.distinct hm hn (h.trans _ _ _ (h.symm _ _ he') he)
    exact ⟨i,hlt,hf,hit⟩
  · rw [habs n k v hn] at he
    simp at he

omit hi

lemma put_of_absent {key : K} {i : ℕ} (hf : find equals hashCode kind t key = some (.absent i))
    (value : V) (depth : ℕ) : put equals hashCode kind (depth+1) t key value =
      (insert kind (put equals hashCode kind depth) t key value (t.pattern hashCode key) i).map
        fun t' => (t',true) := by
  simp only [put,hf,some_bind]
  cases insert kind (put equals hashCode kind depth) t key value (t.pattern hashCode key) i <;> rfl

section
variable (hi : Inv h kind t b es)
include hi

lemma put_present {key k : K} {n : ℕ} {v : V}
    (hn : es[n]? = some (some (k,v))) (he : equals key k = true) (value : V) (depth : ℕ) :
    ∃ t', put equals hashCode kind (depth+1) t key value = some (t',false) ∧
      Inv h kind t' b (es.set n (some (k,value))) := by
  obtain ⟨i, -,hf, -⟩ := hi.find_present hn he
  obtain ⟨data',ho,hw⟩ := overwrite_spec (hi.data_le (hi.lt_of_getElem hn)) (hi.holds n _ hn) value
  exact ⟨_,by simp [put,hf,ho],hi.overwritten hn hw⟩

lemma append_spec {key : K} (value : V) (hroom : es.length < 2^b)
    {i : ℕ} (hf : find equals hashCode kind t key = some (.absent i)) :
    ∃ t', append kind t key value (t.pattern hashCode key) i = some t' ∧
      Inv h kind t' b (es ++ [some (key,value)]) := by
  rcases hi.find_spec key with ⟨i',m,k',v',hf', -⟩ | ⟨d,hd,hf',hpath,hslot,hno, -⟩
  · simp [hf] at hf'
  rw [hf] at hf'
  obtain rfl : i = slot h b key d := by simpa using hf'
  obtain ⟨data',ha,hw⟩ := appendCells_spec (hi.data_le hroom) key value
  obtain ⟨q, -,hq,hle⟩ := hi.pattern_eq hashCode key
  have hstore : (t.pattern hashCode key ||| t.usedData >>> kind.shift)%2^32 =
      t.pattern hashCode key+es.length := by
    rw [hi.used,kind.shiftRight_eq,hq,or_eq_add hroom]
    refine mod_eq_of_lt (lt_of_lt_of_le ?_ hle)
    rw [add_mul,one_mul]
    omega
  refine ⟨_,?_,hi.appended hroom hd hpath hslot hno hw rfl⟩
  rw [append,hstore,assign_eq (hi.size_eq (mod_lt _ (by positivity))),hi.used]
  simp [ha]

lemma not_full (hroom : es.length < 2^b) : t.usedData ≠ t.data.length := by
  rw [hi.used,hi.data]
  intro he
  exact hroom.ne (eq_of_mul_eq_mul_right kind.step_pos he)

lemma absent_of_find {key : K}
    (habs : Absent equals es key) : ∃ i, find equals hashCode kind t key = some (.absent i) := by
  rcases hi.find_spec key with ⟨i',m,k',v', -, -, -,hm,he⟩ | ⟨d, -,hf, -⟩
  · rw [habs m k' v' hm] at he
    simp at he
  · exact ⟨_,hf⟩

lemma put_room (key : K) (value : V) (hroom : es.length < 2^b) (habs : Absent equals es key)
    (depth : ℕ) : ∃ t', put equals hashCode kind (depth+1) t key value = some (t',true) ∧
      Inv h kind t' b (es ++ [some (key,value)]) := by
  obtain ⟨i,hf⟩ := hi.absent_of_find habs
  obtain ⟨t',ha,hi'⟩ := hi.append_spec value hroom hf
  exact ⟨t',by simp [put_of_absent hf,insert,hi.not_full hroom,ha],hi'⟩

lemma init_spec {b' k : ℕ} (hb : 0 < b') (hle : b' ≤ 31)
    (hk : k+b' ≤ 32) (hlen : es.reduceOption.length ≤ 2^b') (depth : ℕ) :
    ∃ t', init kind (put equals hashCode kind (depth+1)) t (2^(b'+1)) (2^k-1) = some t' ∧
      Inv h kind t' b' (es.reduceOption.map some) := by
  have hcount : (t.usedData+(kind.step-1))/kind.step = es.length := by
    have := kind.step_pos
    rw [hi.used,mul_comm,mul_add_div this,div_eq_of_lt (by omega),add_zero]
  unfold init
  rw [hcount]
  have hfold := foldlM_range_total (n := es.length)
    (f := fun s n => copyEntry kind (put equals hashCode kind (depth+1)) t.data s (n*kind.step))
    (s := fresh kind (2^(b'+1)) (2^k-1) (t.dataId+1))
    (fun m s => Inv h kind s b' ((es.take m).reduceOption.map some))
    (by simpa using Inv.new h kind hb hle hk _) ?_
  · simpa using hfold
  intro m hm s hs
  have hget : es[m]? = some es[m] := getElem?_eq_getElem hm
  have htake : es.take (m+1) = es.take m ++ [es[m]] := (take_append_getElem hm).symm
  cases hcase : es[m] with
  | none =>
    have hdel := (hi.holds m none (hcase ▸ hget)).deleted
    refine ⟨s,by simp [copyEntry,hdel],?_⟩
    rw [htake,hcase]
    simpa [reduceOption] using hs
  | some p =>
    obtain ⟨key,value⟩ := p
    rw [hcase] at hget
    have hh := hi.holds m _ hget
    have hroom : ((es.take m).reduceOption.map some).length < 2^b' := by
      have h1 : ((es.take (m+1)).reduceOption).length ≤ es.reduceOption.length := by
        refine List.Sublist.length_le ?_
        exact (take_sublist _ _).filterMap _
      rw [htake,hcase] at h1
      simp only [reduceOption_append,length_append,reduceOption_cons_of_some,
        length_cons,length_map] at h1 ⊢
      omega
    obtain ⟨s',hput,hs'⟩ := hs.put_room key value hroom (fun n k' v' hn => by
      by_contra hne
      obtain ⟨p,hp,he⟩ := mem_map.1 (mem_of_getElem? hn)
      obtain rfl : p = (k',v') := by simpa using he
      obtain ⟨j,hj⟩ := mem_iff_getElem?.1 (reduceOption_mem_iff.1 hp)
      have hjm : j < m := by
        have := (List.getElem?_eq_some_iff.1 hj).1
        simp only [List.length_take] at this
        omega
      rw [List.getElem?_take_of_lt hjm] at hj
      have := hi.distinct hget hj (by simpa using hne)
      omega) depth
    refine ⟨s',by simp [copyEntry,hh.getElem,hh.storedValue,hput],?_⟩
    rw [htake,hcase]
    simpa [reduceOption_append] using hs'

end

end Inv

end DartSdk.CompactHash
