import DartSdk.CompactHashHistory

/-! When a table grows to `2 ^ 33` slots, every hash pattern is `2 ^ 32` and loses its only bit in
`_index`; no key is found from then on. -/
namespace DartSdk.CompactHash
open LinearProbing Iteration List Nat Table
open Utils (Arch)

/-- A set of natural numbers whose index has outgrown 32 bits, with `n` entries in use. -/
structure Outgrown (t : Table ℕ Unit) (n : ℕ) : Prop where
  size : t.index.length = 2^33
  mask : t.hashMask = 0
  data : t.data.length = 2^32
  used : t.usedData = n
  pair_lt : ∀ i, t.pair i < 2^32
  count : countSlots (2^33) (fun i => !t.free i) ≤ n

section Outgrown
variable {t : Table ℕ Unit} {n : ℕ} (equals : ℕ → ℕ → Bool) (hashCode : ℕ → ℤ)

section
variable (ho : Outgrown t n)
include ho

lemma Outgrown.pattern (key : ℕ) : t.pattern hashCode key = 2^32 := by
  rw [Table.pattern,ho.size,ho.mask,hashPattern]
  simp [maskBits]

lemma Outgrown.passes (key : ℕ) {i : ℕ} (hf : t.free i = false) :
    t.Passes equals .set key (t.pattern hashCode key) i := by
  have h0 : t.pair i ≠ 0 := by simpa [free,kUnusedPair] using hf
  by_cases h1 : t.pair i = 1
  · exact Or.inl h1
  · refine Or.inr ⟨by omega,fun hx => ?_⟩
    have hhalf : t.index.length >>> 1 = 2^32 := by rw [ho.size]; rfl
    have hxor : (1*2^32 ^^^ (0*2^32+t.pair i)) < 2^32 ↔ 1 = 0 := xor_lt_iff (ho.pair_lt i)
    rw [one_mul,zero_mul,zero_add] at hxor
    rw [hhalf,ho.pattern hashCode,hxor] at hx
    omega

lemma Outgrown.find (hn : n < 2^33) (key : ℕ) :
    ∃ i < 2^33, find equals hashCode .set t key = some (.absent i) ∧ t.pair i ≤ 1 := by
  have hc : 0 < 2^33 := by norm_num
  obtain ⟨e,he,hef⟩ := exists_not_of_count_lt (lt_of_le_of_lt ho.count hn)
  have hhome := firstProbe_lt (hashCode key) 33
  obtain ⟨d,hd, -,hp,hmin⟩ := search_first hhome ⟨e,he,by simpa using hef⟩
  obtain ⟨j, -,hprobe,hle⟩ := probe_absent ho.size hhome hd
    (fun j hj => ho.passes equals hashCode key (hmin j hj)) (by simpa [free] using hp)
  refine ⟨_,mod_lt _ hc,?_,hle⟩
  rw [CompactHash.find,ho.size]
  exact hprobe

lemma Outgrown.append (hn : n < 2^32) (key : ℕ) {i : ℕ} (hi : i < 2^33) :
    ∃ t', append .set t key () (t.pattern hashCode key) i = some t' ∧ Outgrown t' (n+1) := by
  have hindex : i < t.index.length := ho.size ▸ hi
  have hdata : t.usedData < t.data.length := by rw [ho.used,ho.data]; exact hn
  have hstore : (t.pattern hashCode key ||| t.usedData >>> (Kind.set).shift)%2^32 = n := by
    rw [ho.pattern,ho.used,Kind.shift,shiftRight_zero,or_mod_two_pow,mod_eq_of_lt hn]
    simp
  refine ⟨{ t with
    index := t.index.set i n, data := t.data.set t.usedData (.key key), usedData := t.usedData+1 },
    ?_,?_⟩
  · rw [CompactHash.append,hstore]
    simp [assign_eq hindex,appendCells,assign_eq hdata,Kind.step]
  · have hpair : ∀ j, pair { t with
        index := t.index.set i n, data := t.data.set t.usedData (.key key),
        usedData := t.usedData+1 } j = if j = i then n else t.pair j := pair_set hindex rfl
    refine ⟨by simpa using ho.size,ho.mask,by simpa using ho.data,by simp [ho.used],?_,?_⟩
    · intro j
      rw [hpair]
      split_ifs
      · exact hn
      · exact ho.pair_lt j
    · have hcount := countSlots_change (p := fun j => !t.free j) (q := fun j => !({ t with
          index := t.index.set i n, data := t.data.set t.usedData (.key key),
          usedData := t.usedData+1 } : Table ℕ Unit).free j) hi
        (fun j _ hji => by simp [free,hpair j,if_neg hji])
      have := ho.count
      split_ifs at hcount <;> omega

lemma Outgrown.put (hn : n < 2^32) (key depth : ℕ) :
    ∃ t', put equals hashCode .set (depth+1) t key () = some (t',true) ∧ Outgrown t' (n+1) := by
  obtain ⟨i,hi,hf, -⟩ := ho.find equals hashCode (by omega) key
  obtain ⟨t',ha,ho'⟩ := ho.append hashCode hn key hi
  have hne : t.usedData ≠ t.data.length := by rw [ho.used,ho.data]; omega
  exact ⟨t',by simp [Inv.put_of_absent hf,insert,hne,ha],ho'⟩

lemma Outgrown.contains (hn : n < 2^33) (key : ℕ) :
    setStep equals hashCode t (.contains key) = some (t,.flag false) := by
  obtain ⟨i, -,hf, -⟩ := ho.find equals hashCode hn key
  simp [setStep,getOrData,hf]

end

lemma outgrown_fresh (id : ℕ) : Outgrown (fresh .set (2^33) 0 id) 0 := by
  have hpair : ∀ i, (fresh .set (2^33) 0 id : Table ℕ Unit).pair i = 0 := by
    intro i
    simp only [Table.pair,fresh,getD_eq_getElem?_getD,getElem?_replicate]
    split_ifs <;> rfl
  refine ⟨length_replicate,rfl,length_replicate,rfl,fun i => by rw [hpair]; norm_num,?_⟩
  rw [countSlots_false fun j _ => by rw [Table.free,hpair]; rfl]

end Outgrown

variable (n : ℕ)

/-- Adding the numbers below `n`. -/
def adds : List (SetOp ℕ) := (List.range n).map .add

lemma adds_succ : adds (n+1) = adds n ++ [.add n] := by
  simp [adds,range_succ]

lemma lookup_range : lookup (fun a b => a == b) ((range n).map fun k => (k,())) n = none := by
  refine find?_eq_none.2 fun p hp => ?_
  obtain ⟨k,hk,rfl⟩ := mem_map.1 hp
  have := mem_range.1 hk
  simp
  omega

lemma exec_adds : (exec (setSpec fun a b : ℕ => a == b) [] (adds n)).1 =
    (range n).map fun k => (k,()) := by
  induction n with
  | zero => rfl
  | succ n ih =>
    rw [adds_succ,exec_append,ih]
    simp [exec,setSpec,store,lookup_range,range_succ]

abbrev natStep : Table ℕ Unit → SetOp ℕ → Option (Table ℕ Unit × Answer ℕ Unit) :=
  setStep (fun a b => a == b) fun n => (n : ℤ)

lemma run_adds (a : Arch) : ∀ n ≤ 2^31, ∃ t as b es, run natStep (create .set a) (adds n) = some (t,as) ∧
    Inv consistent_nat .set t b es ∧ es.reduceOption = (range n).map (fun k => (k,())) ∧
      es.countP (·.isNone) = 0 := by
  intro n
  induction n with
  | zero =>
    intro _
    exact ⟨_,[],3,[],rfl,create_inv consistent_nat .set a,rfl,rfl⟩
  | succ n ih =>
    intro hn
    obtain ⟨t,as,b,es,hrun,hi,hes,hcount⟩ := ih (by omega)
    have hlen := length_reduceOption_add es
    simp only [hes,length_map,length_range] at hlen
    have hl := lookup_range n
    obtain ⟨t',b',es',hput,hi',hes',hcount'⟩ := hi.put_spec n () fun _ hfull _ => by
      by_contra hb
      have := hi.le
      obtain rfl : b = 31 := by omega
      omega
    rw [hes,hl] at hput
    refine ⟨t',as ++ [.flag true],b',es',?_,hi',?_,by omega⟩
    · rw [adds_succ,run_append,hrun]
      simp [run,setStep,hput]
    · rw [hes',hes,store,hl]
      simp [range_succ]

/-- The copy of `2 ^ 31` keys to a table of `2 ^ 33` slots. -/
lemma rehash_outgrown {t : Table ℕ Unit} {es : List (Option (ℕ × Unit))}
    (hi : Inv consistent_nat .set t 31 es) (hlen : es.length = 2^31)
    (hcount : es.countP (·.isNone) = 0) :
    ∃ t', rehash .set (put (fun a b : ℕ => a == b) (fun n : ℕ => (n : ℤ)) .set 1) t = some t' ∧
      Outgrown t' (2^31) := by
  obtain ⟨k,hk,hkb⟩ := hi.mask
  have hmask : t.hashMask >>> 1 = 0 := by
    rw [hk,halve_mask,show k-1 = 0 by omega]
    rfl
  have hdel : ¬ t.deletedKeys <<< (Kind.set).deletedShift > t.usedData := by
    rw [hi.deleted,hcount]
    simp
  have hsize : t.index.length <<< 1 = 2^33 := by rw [hi.size]; rfl
  have hsteps : (t.usedData+((Kind.set).step-1))/(Kind.set).step = 2^31 := by
    rw [hi.used,hlen]
    rfl
  rw [rehash,if_neg hdel,hmask,hsize,init,hsteps]
  refine foldlM_range_total (fun n s => Outgrown s n) (outgrown_fresh _) ?_
  intro n hn s hs
  have hget : es[n]? = some es[n] := getElem?_eq_getElem (by omega)
  cases hcase : es[n] with
  | none =>
    have := countP_eq_zero.1 hcount es[n] (getElem_mem _)
    simp [hcase] at this
  | some p =>
    rw [hcase] at hget
    have hh := hi.holds n (some (p.1,p.2)) hget
    obtain ⟨s',hput,hs'⟩ := hs.put (fun a b : ℕ => a == b) (fun n : ℕ => (n : ℤ)) (by omega) p.1 0
    exact ⟨s',by simp [copyEntry,hh.getElem,storedValue,hput],hs'⟩

/-- After adding the numbers up to `2 ^ 31`, the set does not find `0` any more. -/
theorem contains_overflow : ∃ t as, run natStep (create .set .bits64) (adds (2^31+1)) = some (t,as) ∧
    natStep t (.contains 0) = some (t,.flag false) ∧
    (setSpec (fun a b : ℕ => a == b) (exec (setSpec fun a b : ℕ => a == b) [] (adds (2^31+1))).1
      (.contains 0)).2 = .flag true := by
  obtain ⟨t,as,b,es,hrun,hi,hes,hcount⟩ := run_adds .bits64 (2^31) le_rfl
  have hlen := length_reduceOption_add es
  simp only [hes,hcount,List.length_map,List.length_range,Nat.add_zero] at hlen
  obtain rfl : b = 31 := by
    have h1 := hi.le
    have h2 := hi.fits
    rw [← hlen] at h2
    have := (Nat.pow_le_pow_iff_right (by norm_num)).1 h2
    omega
  have habs : ∀ (n : ℕ) k v, es[n]? = some (some (k,v)) → (fun a b : ℕ => a == b) (2^31) k = false := by
    intro n k v hn
    have hmem : (k,v) ∈ es.reduceOption := List.reduceOption_mem_iff.2 (List.mem_of_getElem? hn)
    rw [hes] at hmem
    obtain ⟨k',hk',he⟩ := List.mem_map.1 hmem
    have hlt := List.mem_range.1 hk'
    obtain rfl : k' = k := by simpa using congrArg Prod.fst he
    exact beq_false_of_ne hlt.ne'
  obtain ⟨i,hf⟩ := hi.absent_of_find habs
  obtain ⟨t₁,hr,ho₁⟩ := rehash_outgrown hi hlen.symm hcount
  obtain ⟨t₂,hp,ho₂⟩ := ho₁.put (fun a b : ℕ => a == b) (fun n : ℕ => (n : ℤ)) (by norm_num) (2^31) 0
  have hfull : t.usedData = t.data.length := by rw [hi.used,hi.data,← hlen]
  have hadd : natStep t (.add (2^31)) = some (t₂,.flag true) := by
    rw [natStep,setStep,kMaxDepth,Inv.put_of_absent hf,insert,if_pos hfull,hr]
    simp only [hp,some_bind,Option.pure_def,Option.map_some]
  refine ⟨t₂,as ++ [.flag true],?_,ho₂.contains _ _ (by norm_num) 0,?_⟩
  · rw [adds_succ,run_append,hrun]
    simp only [run,hadd,Option.bind_some,some_bind,Option.pure_def,Option.map_some]
  · rw [exec_adds]
    have hfind : (lookup (fun a b : ℕ => a == b) ((List.range (2^31+1)).map fun k => (k,())) 0).isSome =
        true := by
      rw [List.range_succ_eq_map]
      rfl
    rw [setSpec,hfind]

end DartSdk.CompactHash
