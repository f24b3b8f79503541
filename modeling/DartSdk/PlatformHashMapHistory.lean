import DartSdk.PlatformHashMapRefines

/-! `Remove` is the backward shift of linear probing. The 32-bit capacity limits the histories. -/
namespace DartSdk.PlatformHashMap
open Iteration (Legal exec run run_refines)
open Function (update update_of_ne)
open LinearProbing HashMap

variable {K V : Type} {match_ : K → K → Bool} {hash : K → UInt32}

/-- The pointer comparisons of `Remove` test whether `start` is outside the circular
interval from behind `cand` up to `next`. -/
lemma outside_iff {c cand start n : ℕ} (hc : cand < c) (hs : start < c) (hn : n+1 < c) :
    ((((cand+(n+1))%c > cand && (start ≤ cand || start > (cand+(n+1))%c)) ||
      ((cand+(n+1))%c < cand && (start ≤ cand && start > (cand+(n+1))%c))) = true) ↔
      ¬ (0 < ringDist c cand start ∧ ringDist c cand start ≤ n+1) := by
  rw [add_mod_eq hc hn.le]
  simp only [Bool.or_eq_true,Bool.and_eq_true,decide_eq_true_eq]
  unfold ringDist
  split_ifs <;> omega

section Remove
variable {h : Compatible match_ hash} {M : Key h → Option (Option V)} {c e : ℕ}

/-- A deletion in progress: the shift of the library at the entries of `m`. -/
structure Removing (h : Compatible match_ hash) (m : HashMap K V) (M : Key h → Option (Option V))
    (cand n : ℕ) : Prop where
  length : m.map.length = m.capacity
  capacity : ∃ e ≤ 31, m.capacity = 2^e
  hashes : ∀ i k, (m.entry i).key = some k → (m.entry i).hash = hash k
  shift : Shift m.capacity (home h m.capacity) m.vacant (m.item h) M cand n

/-- Moving the entry `next` into the hole leaves the same entries vacant. -/
lemma Removing.vacant_move {m : HashMap K V} {cand n next : ℕ} (hr : Removing h m M cand n)
    (hnext : m.vacant next = false) : (m.setEntry cand (m.entry next)).vacant = m.vacant := by
  have hcand : m.vacant cand = false := by
    have := hr.shift.not_free 0 (Nat.zero_le _)
    rwa [Nat.add_zero,Nat.mod_eq_of_lt hr.shift.cand_lt] at this
  funext j
  unfold vacant
  rw [setEntry_entry (hr.length ▸ hr.shift.cand_lt)]
  split_ifs with hj
  · rw [hj]
    exact hnext.trans hcand.symm
  · rfl

lemma Removing.move {m : HashMap K V} {cand n : ℕ} (hr : Removing h m M cand n)
    (hn : n+1 < m.capacity) {k : K} (hk : (m.entry ((cand+(n+1))%m.capacity)).key = some k)
    (hout : ¬ (0 < ringDist m.capacity cand (home h m.capacity (Key.mk h k)) ∧
      ringDist m.capacity cand (home h m.capacity (Key.mk h k)) ≤ n+1)) :
    Removing h (m.setEntry cand (m.entry ((cand+(n+1))%m.capacity))) M
      ((cand+(n+1))%m.capacity) 0 := by
  have hcl : cand < m.map.length := hr.length ▸ hr.shift.cand_lt
  refine ⟨by simp [hr.length],hr.capacity,?_,?_⟩
  · intro i k' hk'
    rw [setEntry_entry hcl] at hk' ⊢
    split_ifs at hk' ⊢
    · exact hr.hashes _ k' hk'
    · exact hr.hashes i k' hk'
  · rw [hr.vacant_move (by simp [vacant,hk])]
    refine hr.shift.move hn (by simp [item,hk]; rfl) hout fun j => ?_
    unfold item
    rw [setEntry_entry hcl]
    split_ifs <;> rfl

/-- The scan reaches the vacant entry `e` at the latest. -/
lemma removeLoop_spec : ∀ (fuel : ℕ) {m : HashMap K V} {cand n : ℕ}, Removing h m M cand n → e <
      m.capacity → m.vacant e = true → ringDist m.capacity ((cand+n)%m.capacity) e ≤ fuel →
      ∃ m' cand' n', m.removeLoop fuel cand ((cand+n)%m.capacity) = some (m',cand') ∧
      m'.occupancy = m.occupancy ∧ m'.capacity = m.capacity ∧ Removing h m' M cand' n' ∧
      m'.vacant ((cand'+(n'+1))%m'.capacity) = true := by
  intro fuel
  induction fuel with
  | zero =>
    intro m cand n hr he hv hf
    have hcl := hr.shift.cand_lt
    have hpos : (cand+n)%m.capacity < m.capacity := Nat.mod_lt _ (by omega)
    have hd := add_ringDist_mod hpos he
    rw [Nat.le_zero.1 hf,Nat.add_zero,Nat.mod_eq_of_lt hpos] at hd
    have := hr.shift.not_free n le_rfl
    rw [hd,hv] at this
    simp at this
  | succ fuel ih =>
    intro m cand n hr he hv hf
    have hcl := hr.shift.cand_lt
    have hn := hr.shift.next_lt he hv
    have hnf := hr.shift.not_free n le_rfl
    have hnext : (if (cand+n)%m.capacity+1 = m.capacity then 0
        else (cand+n)%m.capacity+1) = (cand+(n+1))%m.capacity := by
      rw [add_mod_eq hcl (by omega),add_mod_eq hcl hn.le]
      split_ifs <;> omega
    have hlt : (cand+(n+1))%m.capacity < m.capacity := Nat.mod_lt _ (by omega)
    have hdist : ringDist m.capacity ((cand+(n+1))%m.capacity) e ≤ fuel := by
      have hne : (cand+n)%m.capacity ≠ e := by
        intro heq
        simp [heq,hv] at hnf
      rw [← hnext]
      have hlt' : (cand+n)%m.capacity < m.capacity := Nat.mod_lt _ (by omega)
      unfold ringDist at hf ⊢
      split_ifs at * <;> omega
    unfold removeLoop
    simp only [hnext]
    cases hk : (m.entry ((cand+(n+1))%m.capacity)).key with
    | none => exact ⟨m,cand,n,rfl,rfl,rfl,hr,by simp [vacant,hk]⟩
    | some k =>
      obtain ⟨a,ha,hc⟩ := hr.capacity
      have hhome : m.start (m.entry ((cand+(n+1))%m.capacity)).hash =
          home h m.capacity (Key.mk h k) := by
        rw [HashMap.start_eq ha hc,hr.hashes _ k hk,home_mk]
      rw [hhome]
      simp only [Option.isNone_some,Bool.false_eq_true,if_false]
      split_ifs with hout
      · rw [outside_iff hcl (hr.shift.layout.home_lt _) hn] at hout
        have hmove := hr.move hn hk hout
        have := ih hmove he (by rw [hr.vacant_move (by simp [vacant,hk])]; exact hv)
          (by simpa using hdist)
        simpa using this
      · rw [outside_iff hcl (hr.shift.layout.home_lt _) hn,not_not] at hout
        refine ih ⟨hr.length,hr.capacity,hr.hashes,hr.shift.skip (by simp [vacant,hk]) ?_⟩ he hv
          hdist
        intro q v hq
        obtain ⟨k',hk',rfl, -⟩ := (item_eq_some h).1 hq
        rw [hk] at hk'
        cases hk'
        exact hout

open Classical in
lemma remove_spec {c₀ : ℕ} {m : HashMap K V} (hr : Refines h c₀ m M) (k : K) : ∃ m',
      remove match_ m k (hash k) = some m' ∧ Refines h c₀ m' (update M (Key.mk h k) none) := by
  obtain ⟨i, -, -, -,hi,hp, -,⟨v,hv,hM⟩ | ⟨hv,hM⟩⟩ := hr.probe_spec hr.not_full k
  swap
  · have hn : (m.entry i).key = none := by simpa [vacant] using hv
    refine ⟨m,by simp [remove,hp,hn],?_⟩
    rwa [Function.update_eq_self_iff.2 hM.symm]
  obtain ⟨e,he,hev⟩ := hr.exists_vacant hr.not_full
  have hstart : Removing h m (update M (Key.mk h k) none) i 0 :=
    ⟨hr.length,hr.capacity,hr.hashes,.start hr.layout hr.represents hi hv⟩
  obtain ⟨m',cand,n,hl,ho,hc,hrem,hend⟩ := removeLoop_spec m.capacity hstart he hev
    (ringDist_lt (Nat.mod_lt _ hr.capacity_pos) he).le
  rw [Nat.add_zero,Nat.mod_eq_of_lt hi] at hl
  obtain ⟨k',hk', -⟩ := (item_eq_some h).1 hv
  have hsome : M (Key.mk h k) ≠ none := by simp [hM]
  have hsize := size_update_none hr.finite hsome
  have hocc := hr.occupancy
  have hload := hr.load
  have hcap := hr.capacity_le
  have hdec : u32 (m'.occupancy+(2^32-1)) =
      size (update M (Key.mk h k) none) := by
    unfold u32
    omega
  have hentry := setEntry_entry (e := { m'.entry cand with key := none })
    (hrem.length.symm ▸ hrem.shift.cand_lt)
  have hitem : (m'.setEntry cand { m'.entry cand with key := none }).item h =
      hole (m'.item h) cand := by
    funext j
    unfold item hole
    rw [hentry]
    split_ifs <;> rfl
  refine ⟨(m'.setEntry cand { m'.entry cand with key := none }).setOccupancy
    (m'.occupancy+(2^32-1)),?_,⟨⟨?_,hrem.capacity,?_,?_,?_,hdec⟩,?_,?_⟩⟩
  · rw [remove,hp]
    simp only [some_bind,hk',Option.isNone_some,Bool.false_eq_true,
      if_false,if_pos hr.not_full,hl,Option.pure_def]
  · simp [hrem.length]
  · intro j k'' hj
    rw [setOccupancy_entry,hentry] at hj ⊢
    split_ifs at hj ⊢
    exact hrem.hashes j k'' hj
  · refine hrem.shift.finish hend (fun j _ hj => ?_) fun j _ => by rw [setOccupancy_item,hitem]
    rw [setOccupancy_vacant,vacant,hentry] at hj
    split_ifs at hj with hjc
    · exact Or.inl hjc
    · exact Or.inr hj
  · rw [setOccupancy_item,hitem]
    exact hrem.shift.represents
  · rw [setOccupancy_capacity,setEntry_capacity,hc]
    exact hr.lower
  · rw [setOccupancy_occupancy,setOccupancy_capacity,setEntry_capacity,hdec,hc]
    omega

end Remove

/-- A client's call. `store` is what it then writes into the entry that `Lookup` returned. -/
inductive Op (K V : Type)
  | lookup (key : K) (insert : Bool) (store : Option (Option V))
  | remove (key : K)
  | clear

/-- One call; the result is the value found in the returned entry, or `none` for `NULL`. -/
def step (match_ : K → K → Bool) (hash : K → UInt32) (m : HashMap K V) :
    Op K V → Option (HashMap K V × Option (Option V))
  | .lookup key insert store => do
    let (m,p) ← lookup match_ m key (hash key) insert
    match p with
    | none => return (m,none)
    | some p =>
      match store with
      | none => return (m,some (m.entry p).value)
      | some v => return (m.setValue p v,some (m.entry p).value)
  | .remove key => do
    let m ← remove match_ m key (hash key)
    return (m,none)
  | .clear => some (m.clear,none)

variable (h : Compatible match_ hash)

open Classical in
/-- What a finite map from keys to values does at the same call. -/
noncomputable def spec (M : Key h → Option (Option V)) :
    Op K V → (Key h → Option (Option V)) × Option (Option V)
  | .lookup key insert store =>
    match M (Key.mk h key) with
    | some v => (update M (Key.mk h key) (some (store.getD v)),some v)
    | none =>
      if insert then (update M (Key.mk h key) (some (store.getD none)),some none)
      else (M,none)
  | .remove key => (update M (Key.mk h key) none,none)
  | .clear => (fun _ => none,none)

/-- The most keys that a table with a 32-bit capacity holds below its load limit. -/
def maxKeys : ℕ := 1717986918

def Fits (M : Key h → Option (Option V)) (op : Op K V) : Prop :=
  size (spec h M op).1 ≤ maxKeys

section History
variable {h : Compatible match_ hash} {c₀ : ℕ} {m : HashMap K V} {M : Key h → Option (Option V)}

open Classical in
lemma Refines.setValue (hr : Refines h c₀ m M) {i : ℕ} (hi : i < m.capacity) {q : Key h}
    {v : Option V} (hq : m.item h i = some (q,v)) (w : Option V) :
    Refines h c₀ (m.setValue i w) (update M q (some w)) :=
  ⟨hr.toTable.setValue hi hq w,hr.lower,hr.load⟩

lemma item_value {i : ℕ} {q : Key h} {v : Option V} (hq : m.item h i = some (q,v)) :
    (m.entry i).value = v := by
  obtain ⟨k, -, -,hv⟩ := (item_eq_some h).1 hq
  exact hv

lemma step_lookup (hr : Refines h c₀ m M) {key : K} {insert : Bool} {store : Option (Option V)}
    (hfit : Fits h M (.lookup key insert store)) :
    ∃ m', step match_ hash m (.lookup key insert store) =
        some (m',(spec h M (.lookup key insert store)).2) ∧
      Refines h c₀ m' (spec h M (.lookup key insert store)).1 := by
  classical
  cases hk : M (Key.mk h key) with
  | some v =>
    obtain ⟨i,hi,hit,hl⟩ := lookupWith_present hr.toTable hr.not_full hk insert
    replace hl : lookup match_ m key (hash key) insert = some (m,some i) := hl
    cases store with
    | none =>
      have hself : update M (Key.mk h key) (some v) = M := by
        rw [← hk,Function.update_eq_self]
      refine ⟨m,by simp [step,spec,hl,hk,item_value hit],?_⟩
      simpa [spec,hk,hself] using hr
    | some w =>
      refine ⟨m.setValue i w,by simp [step,spec,hl,hk,item_value hit],?_⟩
      simpa [spec,hk] using hr.setValue hi hit w
  | none =>
    cases insert with
    | false =>
      have hl : lookup match_ m key (hash key) false = some (m,none) :=
        lookupWith_absent hr.toTable hr.not_full hk
      refine ⟨m,by simp [step,spec,hl,hk],?_⟩
      simpa [spec,hk] using hr
    | true =>
      have hsize : size M+1 ≤ maxKeys := by
        simpa [Fits,spec,hk,size_update_absent hr.finite hk] using hfit
      obtain ⟨m',i,hl,hr',hi,hit⟩ := lookup_insert hr hk (by unfold maxKeys at hsize; omega)
      cases store with
      | none =>
        refine ⟨m',by simp [step,spec,hl,hk,item_value hit],?_⟩
        simpa [spec,hk] using hr'
      | some w =>
        refine ⟨m'.setValue i w,by simp [step,spec,hl,hk,item_value hit],?_⟩
        simpa [spec,hk] using hr'.setValue hi hit w

lemma step_refines (hr : Refines h c₀ m M) (op : Op K V) (hfit : Fits h M op) :
    ∃ m', step match_ hash m op = some (m',(spec h M op).2) ∧ Refines h c₀ m' (spec h M op).1 := by
  cases op with
  | lookup key insert store => exact step_lookup hr hfit
  | remove key =>
    obtain ⟨m',hm',hr'⟩ := remove_spec hr key
    exact ⟨m',by simp [step,spec,hm'],hr'⟩
  | clear =>
    refine ⟨m.clear,rfl,⟨clear_spec h hr.length hr.capacity,hr.lower,?_⟩⟩
    simpa [clear] using hr.capacity_pos

/-- In every history that never holds more than `maxKeys` keys at once, every call returns
(so every loop terminates), answers as the finite map does, and leaves `occupancy_` equal to
the number of present keys and below `capacity_`. -/
theorem history_refines (h : Compatible match_ hash) {e : ℕ} (he : e ≤ 31) (ops : List (Op K V))
    (hfit : Legal (Fits h) (spec h) (fun _ => none) ops) : ∃ m₀ m, initializeMap (2^e) = some m₀ ∧
      run (step match_ hash) m₀ ops =
        some (m,(exec (spec h) (fun _ => none) ops).2) ∧
      m.occupancy = size (exec (spec h) (fun _ => none) ops).1 ∧
      m.occupancy < m.capacity := by
  obtain ⟨m₀,hm₀,hc₀,ht₀⟩ := initializeMap_spec (V := V) h he
  have hocc₀ : m₀.occupancy = 0 := by rw [ht₀.occupancy,size_empty]
  have hr₀ : Refines h (2^e) m₀ fun _ => none :=
    ⟨ht₀,hc₀.ge,by rw [hocc₀]; simpa using ht₀.capacity_pos⟩
  obtain ⟨m,hm,hr⟩ := run_refines (Refines h (2^e))
    (fun m M op hr hfit => step_refines hr op hfit) ops hr₀ hfit
  exact ⟨m₀,m,hm₀,hm,hr.occupancy,hr.not_full⟩

lemma spec_finite (hM : {q | M q ≠ none}.Finite) (op : Op K V) :
    {q | (spec h M op).1 q ≠ none}.Finite ∧ size (spec h M op).1 ≤ size M+1 := by
  classical
  have hinsert : ∀ q (M' : Key h → Option (Option V)), (∀ q', M' q' ≠ none → q' = q ∨ M q' ≠ none) →
      {q | M' q ≠ none}.Finite ∧ size M' ≤ size M+1 := by
    intro q M' hsub
    have hsub' : {q' | M' q' ≠ none} ⊆ insert q {q' | M q' ≠ none} := hsub
    exact ⟨(hM.insert q).subset hsub',(Set.ncard_le_ncard hsub' (hM.insert q)).trans
      (Set.ncard_insert_le _ _)⟩
  have hupdate : ∀ q x, ∀ q', update M q x q' ≠ none → q' = q ∨ M q' ≠ none := by
    intro q x q' hq'
    by_cases hqq : q' = q
    · exact Or.inl hqq
    · rw [update_of_ne hqq] at hq'
      exact Or.inr hq'
  cases op with
  | lookup key insert store =>
    refine hinsert (Key.mk h key) _ ?_
    cases hk : M (Key.mk h key) with
    | some v =>
      simp only [spec,hk]
      exact hupdate _ _
    | none =>
      cases insert with
      | true =>
        simp only [spec,hk,if_true]
        exact hupdate _ _
      | false =>
        simp only [spec,hk,Bool.false_eq_true,if_false]
        exact fun q' hq' => Or.inr hq'
  | remove key => exact hinsert (Key.mk h key) _ (hupdate _ _)
  | clear => simp [spec,size]

lemma legal_of_length (ops : List (Op K V)) : ∀ {M : Key h → Option (Option V)},
      {q | M q ≠ none}.Finite → size M+ops.length ≤ maxKeys → Legal (Fits h) (spec h) M ops := by
  induction ops with
  | nil => exact fun _ _ => trivial
  | cons op ops ih =>
    intro M hM hlen
    obtain ⟨hfin,hsize⟩ := spec_finite hM op
    rw [List.length_cons] at hlen
    exact ⟨by unfold Fits; omega,ih hfin (by omega)⟩

end History

lemma nat_compatible : Compatible (fun a b : ℕ => a == b) (fun k => UInt32.ofNat k) :=
  ⟨by simp,by simp,by simp,by simp⟩

def inserts (n : ℕ) : List (Op ℕ ℕ) := (List.range n).map fun k => .lookup k true none

lemma inserts_succ (n : ℕ) : inserts (n+1) = inserts n ++ [.lookup n true none] := by
  simp [inserts,List.range_succ]

lemma inserts_exec (n : ℕ) : size (exec (spec nat_compatible) (fun _ => none) (inserts n)).1 = n ∧
      {q | (exec (spec nat_compatible) (fun _ => none) (inserts n)).1 q ≠ none}.Finite ∧ ∀ k ≥ n,
      (exec (spec nat_compatible) (fun _ => none) (inserts n)).1 (Key.mk nat_compatible k) =
      none := by
  classical
  induction n with
  | zero => simp [inserts,exec,size_empty]
  | succ n ih =>
    obtain ⟨hsize,hfin,habs⟩ := ih
    rw [inserts_succ,Iteration.exec_append]
    generalize (exec (spec nat_compatible) (fun _ => none) (inserts n)).1 = M at *
    have hM : (exec (spec nat_compatible) M [.lookup n true none]).1 =
        update M (Key.mk nat_compatible n) (some none) := by
      simp [exec,spec,habs n le_rfl]
    rw [hM]
    refine ⟨?_,?_,?_⟩
    · rw [size_update_absent hfin (habs n le_rfl),hsize]
    · rw [← hM]
      exact (spec_finite hfin (.lookup n true none)).1
    · intro k hk
      rw [update_of_ne,habs k (by omega)]
      rw [Ne,Key.mk_eq]
      simp
      omega

lemma inserts_overflow {n : ℕ} (hn : n = maxKeys) : ∃ m₀ : HashMap ℕ ℕ,
    initializeMap (2^31) = some m₀ ∧
      run (step (fun a b => a == b) fun k => UInt32.ofNat k) m₀ (inserts (n+1)) = none := by
  obtain ⟨m₀,hm₀,hc₀,ht₀⟩ := initializeMap_spec (V := ℕ) nat_compatible (e := 31) le_rfl
  have hocc₀ : m₀.occupancy = 0 := by rw [ht₀.occupancy,size_empty]
  have hr₀ : Refines nat_compatible (2^31) m₀ fun _ => none :=
    ⟨ht₀,hc₀.ge,by rw [hocc₀]; simpa using ht₀.capacity_pos⟩
  obtain ⟨hsize,hfin,habs⟩ := inserts_exec n
  obtain ⟨m,hm,hr⟩ := run_refines (Refines nat_compatible (2^31))
    (fun m M op hr hfit => step_refines hr op hfit) (inserts n) hr₀
    (legal_of_length _ (by simp) (by simp [size_empty,inserts,hn]))
  refine ⟨m₀,hm₀,?_⟩
  have hlast := lookup_overflow hr (habs n le_rfl) (by
    rw [hsize,hn]
    unfold maxKeys
    norm_num)
  rw [inserts_succ,Iteration.run_append,hm]
  simp [run,step,hlast]

/-- One more key than `maxKeys` in a table of `2 ^ 31` entries: the doubled capacity wraps
to zero and the map is lost. -/
theorem history_overflow : ∃ m₀ : HashMap ℕ ℕ, initializeMap (2^31) = some m₀ ∧
    run (step (fun a b => a == b) fun k => UInt32.ofNat k) m₀
      (inserts (maxKeys+1)) = none :=
  inserts_overflow rfl

/-- Three colliding keys in a table of one entry, with growth, removal and a rewrite. -/
def sampleOps : List (Op ℕ ℕ) :=
  [.lookup 1 true (some (some 10)),.lookup (1+2^32) true none,.lookup 3 true (some (some 30)),
   .remove 1,.lookup 3 false (some (some 31)),.lookup 1 false none,.lookup 3 false none]

theorem history_refines_sample : ∃ m₀ m : HashMap ℕ ℕ, initializeMap (2^0) = some m₀ ∧
    run (step (fun a b => a == b) fun k => UInt32.ofNat k) m₀ sampleOps =
      some (m,(exec (spec nat_compatible) (fun _ => none) sampleOps).2) ∧
    m.occupancy = size (exec (spec nat_compatible) (fun _ => none) sampleOps).1 ∧
    m.occupancy < m.capacity :=
  history_refines nat_compatible (by norm_num) sampleOps
    (legal_of_length _ (by simp) (by simp [size_empty,sampleOps,maxKeys]))

end DartSdk.PlatformHashMap
