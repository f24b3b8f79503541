import DartSdk.HashTableHistory

/-! The sets as canonicalizing tables: `InsertOrGet` and `InsertNewOrGet` are to answer the object
that is stored. -/
namespace DartSdk.HashTable.HashSet
open Option
open Iteration (Legal exec exec_append run)

variable {Key A : Type} {T : KeyTraits Key A} {e : Bool} {N : ℕ} {data : List (RawObject A)}
  {M : T.Class → Option (RawObject A)}

/-- The stored match is the enumeration index of its own entry, once there is room. -/
def OwnIndex (T : KeyTraits Key A) (sh : Shape) (data : List (RawObject A)) (key : Key) : Prop :=
  ∃ grown i, ensureCapacity T sh data = some grown ∧ i < numEntries sh grown ∧
    isOccupied sh grown i = true ∧ keyClass T sh grown i = T.classOf key ∧
    getPayload sh grown i 0 = some (internalGetKey sh grown i)

section Steps
variable [DecidableEq T.Class]

/-- A match is answered by what its payload holds, so rightly only for an `OwnIndex`. -/
lemma insertOrGet_iff (h : Holds Prod.fst T (shape e) N data M) (hN : e = true → N < kSmiMax)
    {o : RawObject A} (ho : o.isKey = true) :
    (∃ data', insertOrGet T (shape e) data o = some (data',(M (T.classOf (T.ofObject o))).getD o)) ↔
      M (T.classOf (T.ofObject o)) = none ∨ OwnIndex T (shape e) data (T.ofObject o) := by
  obtain ⟨n,F,hi,rfl⟩ := h
  obtain ⟨m,grown,i,present,hgrow,hfind,hinv,hcase⟩ :=
    hi.locate (fun he => (hN he).le) (T.ofObject o)
  simp only [insertOrGet,hgrow,hfind,some_bind]
  rcases hcase with ⟨rfl,hin,hocc,hclass,hsome⟩ | ⟨rfl,habs,hv,hroom⟩
  · rw [view_key hsome]
    constructor
    · rintro ⟨data',hs⟩
      refine Or.inr ⟨grown,i,hgrow,hinv.slots.numEntries.symm ▸ hin,hocc,hclass,?_⟩
      cases hget : getPayload (shape e) grown i 0 <;> simp_all
    · rintro (hnone | ⟨grown',j,hgrow',hj,hocc',hclass',hget⟩)
      · cases hnone
      · obtain rfl := some.inj (hgrow.symm.trans hgrow')
        obtain rfl : j = i := hinv.slots.layout.unique j (hinv.slots.numEntries ▸ hj) i hin
          (T.classOf (T.ofObject o)) _ _ (item_eq_some.2 ⟨hocc',hclass',rfl⟩)
          (item_eq_some.2 ⟨hocc,hclass,rfl⟩)
        exact ⟨grown,by simp [hget]⟩
  · have hnone : view Prod.fst F (T.classOf (T.ofObject o)) = none := by rw [view,habs,map_none]
    obtain ⟨data',hins, -⟩ := hinv.insertKey ho hv rfl habs hroom hN
    simp [hnone,hins]

/-- Only an `EnumIndexHashSet` of Smis can hold an `OwnIndex`. -/
lemma OwnIndex.smi (h : Holds Prod.fst T (shape e) N data M) (hN : e = true → N < kSmiMax)
    {key : Key} (hown : OwnIndex T (shape e) data key) :
    e = true ∧ ∃ v, M (T.classOf key) = some (.smi v) := by
  obtain ⟨n,F,hi,rfl⟩ := h
  obtain ⟨grown',i,hgrow',hin,hocc,hclass,hget⟩ := hown
  obtain ⟨m,grown,hgrow,hinv, -⟩ := hi.ensureCapacity fun he => (hN he).le
  obtain rfl := some.inj (hgrow.symm.trans hgrow')
  rw [hinv.slots.numEntries] at hin
  obtain rfl : e = true := by
    cases e with
    | true => rfl
    | false => simp [getPayload,Shape.payloadSize,shape] at hget
  obtain ⟨next, -,hE⟩ := hinv.enum rfl
  obtain ⟨v, -,hv⟩ := hE.index i hin hocc
  rw [getPayload_eq hinv.slots hin hocc (c := 0) Nat.one_pos,some.injEq] at hget
  have hfound := hinv.slots.found hin (item_eq_some.2 ⟨hocc,hclass,rfl⟩)
  exact ⟨rfl,v,by rw [view_key hfound.2.2.2,← hget]; exact congrArg some hv⟩

omit [DecidableEq T.Class] in
lemma insertOrGet_insert {sh : Shape} {o r : RawObject A} {data' : List (RawObject A)}
    (h : insertOrGet T sh data o = some (data',r)) :
    ∃ present, insert T sh data o = some (data',present) := by
  simp only [insertOrGet,insert,bind_eq_bind,bind_eq_some_iff] at h ⊢
  obtain ⟨grown,hgrow,⟨i,present⟩,hfind,h⟩ := h
  refine ⟨present,grown,hgrow,(i,present),hfind,?_⟩
  cases present <;> simp [bind_eq_some_iff] at h ⊢ <;> tauto

/-- Only `Remove` and `Clear` take an object away. -/
lemma exec_keeps {c : T.Class} {x : RawObject A} (ops : List (Op Key A)) (hx : M c = some x)
    (hops : ∀ op ∈ ops, op ≠ .clear ∧ ∀ key, op ≠ .remove key) :
    (exec (spec T) M ops).1 c = some x := by
  induction ops generalizing M with
  | nil => exact hx
  | cons op ops ih =>
    refine ih ?_ fun o ho => hops o (List.mem_cons_of_mem op ho)
    obtain ⟨hclear,hremove⟩ := hops op List.mem_cons_self
    cases op with
    | clear => exact absurd rfl hclear
    | remove key => exact absurd rfl (hremove key)
    | insert | insertNewOrGet =>
      simp only [spec,Function.update_apply]
      split <;> simp_all
    | containsKey | getOrNull => exact hx

end Steps

variable (T)

open Classical in
/-- The objects that a history leaves in the set, by their classes. -/
noncomputable def stored (ops : List (Op Key A)) :
    T.Class → Option (RawObject A) := (exec (spec T) (fun _ => none) ops).1

variable {T}

end DartSdk.HashTable.HashSet
