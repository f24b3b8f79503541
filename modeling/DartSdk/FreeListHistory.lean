import DartSdk.FreeListInvariant
import DartSdk.Iteration

/-! The free memory and the handed-out bytes together are the bytes `U` that the heap started with,
as multisets: nothing is lost and nothing is held twice. -/
namespace DartSdk.FreeList
open Multiset

structure Heap where
  list : FreeList
  out : Finset ℕ

inductive Op where
  | free (addr size : ℕ)
  | tryAllocate (size : ℕ)
  | tryAllocateSmall (size : ℕ)
  | tryAllocateLarge (minimumSize : ℕ)

def bytes (addr size : ℕ) : Finset ℕ := Finset.Ico addr (addr+size)

@[simp]
lemma bytes_val (addr size : ℕ) : (bytes addr size).val = block addr size := rfl

def handOut (list : FreeList) (out : Finset ℕ) : Option Element → Heap × Option Element
  | none => (⟨list,out⟩,none)
  | some e => (⟨list,out ∪ bytes e.addr e.size⟩,some e)

/-- One operation; the result is the block that it hands out. -/
def step (h : Heap) : Op → Option (Heap × Option Element)
  | .free addr size => do
    let list ← h.list.freeLocked addr size
    return (⟨list,h.out \ bytes addr size⟩,none)
  | .tryAllocate size => do
    let (list,result) ← h.list.tryAllocateLocked size
    return handOut list h.out (result.map (⟨·,size⟩))
  | .tryAllocateSmall size => do
    let (list,result) ← h.list.tryAllocateSmallLocked size
    return handOut list h.out (result.map (⟨·,size⟩))
  | .tryAllocateLarge minimumSize =>
    let (list,result) := h.list.tryAllocateLargeLocked minimumSize
    some (handOut list h.out result)

/-- Sizes are aligned, and only bytes that are handed out are freed. -/
def Allowed (h : Heap) : Op → Prop
  | .free addr size => 16 ≤ size ∧ 16 ∣ size ∧ bytes addr size ⊆ h.out
  | .tryAllocate size => 16 ≤ size ∧ 16 ∣ size
  | .tryAllocateSmall size => 16 ≤ size ∧ 16 ∣ size
  | .tryAllocateLarge _ => True

def start (U : Finset ℕ) : Heap := ⟨reset,U⟩

structure Inv (U : Finset ℕ) (h : Heap) : Prop where
  wf : Wf h.list
  total : memory h.list+h.out.val = U.val

/-- What an answer to an operation in `h` tells: a handed-out block was free and is large
enough, and a failure has its reason. -/
def Justified (h : Heap) : Op → Option Element → Prop
  | .free _ _, r => r = none
  | .tryAllocate size, some e => e.size = size ∧ Disjoint (bytes e.addr e.size) h.out
  | .tryAllocate size, none => ∀ e ∈ elements h.list, e.size < size
  | .tryAllocateSmall size, some e => e.size = size ∧ Disjoint (bytes e.addr e.size) h.out
  | .tryAllocateSmall size, none => ∀ i < 128, ∀ e ∈ h.list.freeLists i, e.size < size
  | .tryAllocateLarge minimumSize, some e =>
    minimumSize ≤ e.size ∧ Disjoint (bytes e.addr e.size) h.out
  | .tryAllocateLarge _, none => True

section
variable {U : Finset ℕ} {h : Heap}

lemma start_inv (U : Finset ℕ) : Inv U (start U) :=
  ⟨reset_wf,by simp [start,reset_memory]⟩

variable (hi : Inv U h)
include hi

/-- A block taken from the free memory is not handed out already. -/
lemma Inv.disjoint {addr size : ℕ} {m : Multiset ℕ}
    (hmem : memory h.list = block addr size+m) : Disjoint (bytes addr size) h.out := by
  have hnodup : (block addr size+m+h.out.val).Nodup := by
    rw [← hmem,hi.total]
    exact U.nodup
  have hdisj := (nodup_add.1 hnodup).2.2
  rw [disjoint_add_left] at hdisj
  exact Finset.disjoint_val.1 hdisj.1

lemma Inv.handOut {list : FreeList} (hw : Wf list) {e : Element}
    (hmem : memory h.list = block e.addr e.size+memory list) :
    Inv U ⟨list,h.out ∪ bytes e.addr e.size⟩ := by
  refine ⟨hw,?_⟩
  have hval : (h.out ∪ bytes e.addr e.size).val = h.out.val+block e.addr e.size := by
    rw [← Finset.disjUnion_eq_union _ _ (hi.disjoint hmem).symm]
    rfl
  calc memory list+(h.out ∪ bytes e.addr e.size).val
      = block e.addr e.size+memory list+h.out.val := by rw [hval]; abel
    _ = U.val := by rw [← hmem,hi.total]

lemma Inv.free {addr size : ℕ} (hsub : bytes addr size ⊆ h.out)
    {list : FreeList} (hw : Wf list) (hmem : memory list = block addr size+memory h.list) :
    Inv U ⟨list,h.out \ bytes addr size⟩ := by
  refine ⟨hw,?_⟩
  have hval : h.out.val = block addr size+(h.out \ bytes addr size).val := by
    rw [Finset.sdiff_val,← bytes_val,add_tsub_cancel_of_le (Finset.val_le_iff.2 hsub)]
  calc memory list+(h.out \ bytes addr size).val
      = memory h.list+(block addr size+(h.out \ bytes addr size).val) := by rw [hmem]; abel
    _ = U.val := by rw [← hval,hi.total]

lemma Inv.step (op : Op) (hop : Allowed h op) :
    ∃ h' r, FreeList.step h op = some (h',r) ∧ Inv U h' ∧ Justified h op r := by
  cases op with
  | free addr size =>
    obtain ⟨h1,h2,hsub⟩ := hop
    obtain ⟨list,hfree,hw,hmem⟩ := freeLocked_spec hi.wf addr h1 h2
    exact ⟨_,none,by simp [FreeList.step,hfree],hi.free hsub hw hmem,rfl⟩
  | tryAllocate size =>
    obtain ⟨list,r,halloc,hw,hout⟩ := tryAllocateLocked_spec hi.wf hop.1 hop.2
    cases r with
    | none =>
      obtain ⟨rfl,hfail⟩ := hout
      exact ⟨h,none,by simp [FreeList.step,halloc,FreeList.handOut],hi,hfail⟩
    | some addr =>
      exact ⟨_,some ⟨addr,size⟩,by simp [FreeList.step,halloc,FreeList.handOut],
        hi.handOut (e := ⟨addr,size⟩) hw hout,rfl,hi.disjoint hout⟩
  | tryAllocateSmall size =>
    obtain ⟨list,r,halloc,hw,hout⟩ := tryAllocateSmallLocked_spec hi.wf hop.1 hop.2
    cases r with
    | none =>
      obtain ⟨rfl,hfail⟩ := hout
      exact ⟨h,none,by simp [FreeList.step,halloc,FreeList.handOut],hi,hfail⟩
    | some addr =>
      exact ⟨_,some ⟨addr,size⟩,by simp [FreeList.step,halloc,FreeList.handOut],
        hi.handOut (e := ⟨addr,size⟩) hw hout,rfl,hi.disjoint hout⟩
  | tryAllocateLarge minimumSize =>
    obtain ⟨hw,hout⟩ := tryAllocateLargeLocked_spec hi.wf minimumSize
    cases hr : (h.list.tryAllocateLargeLocked minimumSize).2 with
    | none =>
      rw [hr] at hout
      refine ⟨h,none,?_,hi,trivial⟩
      simp only [FreeList.step,hr,FreeList.handOut]
      rw [hout]
    | some e =>
      rw [hr] at hout
      refine ⟨_,some e,?_,hi.handOut hw hout.2,hout.1,hi.disjoint hout.2⟩
      simp [FreeList.step,hr,FreeList.handOut]

def freeBytes (fl : FreeList) : ℕ := ((elements fl).map Element.size).sum

omit hi in
lemma card_memory (fl : FreeList) : (memory fl).card = freeBytes fl := by
  unfold memory freeBytes
  rw [card_bind]
  congr 1
  refine map_congr rfl fun e _ => ?_
  have : (bytes e.addr e.size).card = e.size := by simp [bytes]
  exact this

/-- What the list promises in between operations. -/
structure Consistent (U : Finset ℕ) (h : Heap) : Prop where
  disjoint : (elements h.list).Pairwise fun a b => Disjoint (block a.addr a.size) (block b.addr b.size)
  notOut : ∀ e ∈ elements h.list, Disjoint (bytes e.addr e.size) h.out
  conserved : freeBytes h.list+h.out.card = U.card
  freeMap : ∀ i < kNumLists, h.list.freeMap.test i = true ↔ h.list.freeLists i ≠ []
  last : IsLargest h.list.lastFreeSmallSize fun i => h.list.freeLists i ≠ []

lemma Inv.consistent : Consistent U h := by
  have hnodup : (memory h.list+h.out.val).Nodup := by
    rw [hi.total]
    exact U.nodup
  refine ⟨?_,fun e he => ?_,?_,hi.wf.map,hi.wf.last⟩
  · exact (nodup_bind.1 (nodup_add.1 hnodup).1).2
  · obtain ⟨m,hm⟩ := exists_cons_of_mem he
    refine hi.disjoint (m := m.bind fun e => block e.addr e.size) ?_
    rw [memory,hm,cons_bind]
  · have := congrArg card hi.total
    rwa [card_add,card_memory] at this

omit hi

/-- In every state that allowed operations lead to, the free elements are disjoint from each
other and from the handed-out bytes, no byte is lost, the summaries are exact, and every
further allowed operation succeeds with a justified answer. -/
theorem reach_consistent (U : Finset ℕ) (h : Heap)
    (hreach : Iteration.Reach FreeList.step Allowed (start U) h) :
    Consistent U h ∧ ∀ op, Allowed h op →
      ∃ h' r, FreeList.step h op = some (h',r) ∧ Justified h op r := by
  have hi : Inv U h := by
    refine hreach.invariant (Inv U) (start_inv U) fun t o u r ht ho hs => ?_
    obtain ⟨u',r',hs',hi', -⟩ := ht.step o ho
    obtain ⟨rfl, -⟩ := Prod.mk.inj (Option.some.inj (hs.symm.trans hs'))
    exact hi'
  refine ⟨hi.consistent,fun op hop => ?_⟩
  obtain ⟨h',r,hs, -,hj⟩ := hi.step op hop
  exact ⟨h',r,hs,hj⟩

end

/-- A page of 64 bytes is freed and the first 16 bytes are allocated again. -/
theorem reach_consistent_page : ∃ h h' : Heap,
    FreeList.step (start (Finset.range 64)) (.free 0 64) = some (h,none) ∧
      FreeList.step h (.tryAllocate 16) = some (h',some ⟨0,16⟩) ∧
      Consistent (Finset.range 64) h' := by
  have hfree : Allowed (start (Finset.range 64)) (.free 0 64) :=
    ⟨by decide,by decide,fun x hx => by simpa [bytes,start] using hx⟩
  refine ⟨_,_,rfl,rfl,(reach_consistent (Finset.range 64) _ ?_).1⟩
  exact .next (.next .start hfree rfl) (o := .tryAllocate 16) ⟨by decide,by decide⟩ rfl

end DartSdk.FreeList
